import LibiFleet.Document
import LibiFleet.Editing

/-!
# What saving keeps of a navgraph

`save_navgraph` writes back the document that the console has read, with new lists of vertices and
of lanes. The console has the places and the ends alone: an entry that goes through it comes out
without its name.
-/

namespace LibiFleet

variable {R : Type}

/-- What `yaml.safe_load` makes of a scalar. Python compares the numbers of every kind, and the
booleans with them, by their value. -/
inductive Scalar (R : Type)
  | null
  | num (value : R)
  | text (value : String)
  | bytes (value : List UInt8)
  | stamp (iso : String)
  deriving DecidableEq

abbrev Yaml (R : Type) := Document (Scalar R)

/-- `float` and `int` of a text and of bytes. -/
structure Readings (R : Type) where
  float : String → Option R
  int : String → Option Int
  floatOfBytes : List UInt8 → Option R
  intOfBytes : List UInt8 → Option Int

namespace Document

/-- What an entry has after its first two items. -/
def rest : Yaml R → Option (List (Yaml R))
  | .seq (_ :: _ :: rest) => some rest
  | _ => none

variable [Double R]

/-- `for v in d`. The elements of bytes are numbers. -/
def elements : Yaml R → Option (List (Yaml R))
  | .seq items => some items
  | .map entries => some (entries.map fun e => .scalar e.1)
  | .scalar (.text s) => some (s.toList.map fun c => .scalar (.text (String.singleton c)))
  | .scalar (.bytes s) => some (s.map fun b => .scalar (.num b.toNat))
  | .scalar _ => none

/-- `d[i]` for the index `i`. -/
def item (i : Nat) : Yaml R → Option (Yaml R)
  | .seq items => items[i]?
  | .map entries => entries.lookup (.num i)
  | .scalar (.text s) => (s.toList[i]?).map fun c => .scalar (.text (String.singleton c))
  | .scalar (.bytes s) => (s[i]?).map fun b => .scalar (.num b.toNat)
  | .scalar _ => none

/-- `float(d)`. -/
def toFloat (read : Readings R) : Yaml R → Option R
  | .scalar (.num x) => some x
  | .scalar (.text s) => read.float s
  | .scalar (.bytes s) => read.floatOfBytes s
  | _ => none

/-- `int(d)`. -/
def toInt (read : Readings R) : Yaml R → Option Int
  | .scalar (.num x) => some (if 0 ≤ x then ⌊x⌋ else ⌈x⌉)
  | .scalar (.text s) => read.int s
  | .scalar (.bytes s) => read.intOfBytes s
  | _ => none

/-- The entries of a list of the level `L1`. -/
def entries (d : Yaml R) (key : String) : Option (List (Yaml R)) := do
  let lvl ← d.follow [.text "levels", .text "L1"]
  let list ← lvl.field (.text key)
  list.elements

/-- What the entry number `k` of a list of the level has after its first two items. -/
def attributes (d : Yaml R) (key : String) (k : Nat) : Option (List (Yaml R)) :=
  (d.entries key).bind fun es => es[k]?.bind rest

end Document

structure Console (R : Type) where
  bridge : Bridge R
  ngFull : Yaml R

/-- The attributes of a saved vertex. -/
def nameless : Yaml R := .map [(.text "name", .scalar (.text ""))]

def vertexEntry (v : Vertex R) : Yaml R := .seq [.scalar (.num v.x), .scalar (.num v.y), nameless]

namespace Console

variable [Double R]

def laneEntry (l : Int × Int) : Yaml R := .seq [.scalar (.num l.1), .scalar (.num l.2), .map []]

/-- `[float(v[0]), float(v[1])]`. -/
def readVertex (read : Readings R) (v : Yaml R) : Option (Vertex R) := do
  let x ← v.item 0
  let y ← v.item 1
  some ⟨← x.toFloat read, ← y.toFloat read⟩

/-- `[int(l[0]), int(l[1])]`. -/
def readLane (read : Readings R) (l : Yaml R) : Option (Int × Int) := do
  let a ← l.item 0
  let b ← l.item 1
  some (← a.toInt read, ← b.toInt read)

/-- The part of `__init__` that reads the navgraph. -/
def init (read : Readings R) (ngFull : Yaml R) : Option (Console R) := do
  let vertices ← (← ngFull.entries "vertices").mapM (readVertex read)
  let lanes ← (← ngFull.entries "lanes").mapM (readLane read)
  some ⟨⟨[], vertices, lanes, List.nodup_nil⟩, ngFull⟩

/-- The two assignments of `save_navgraph`. -/
def refill (b : Bridge R) (lvl : Yaml R) : Option (Yaml R) := do
  let lvl ← lvl.assign (.text "vertices") (.seq (b.vertices.map vertexEntry))
  lvl.assign (.text "lanes") (.seq (b.lanes.map laneEntry))

/-- `save_navgraph`, without the request to the fleet: the file gets `ngFull`. -/
def saveNavgraph (c : Console R) : Option (Console R) := do
  let ngFull ← c.ngFull.within (refill c.bridge) [.text "levels", .text "L1"]
  some { c with ngFull }

end Console

/-- The lists of the editor, each entry with the number of the entry that it was when the document
was read, and `none` for one that was added. -/
structure Traced (R : Type) where
  vertices : List (Vertex R × Option Nat)
  lanes : List ((Int × Int) × Option Nat)

namespace Traced

def start (b : Bridge R) : Traced R where
  vertices := b.vertices.zipIdx.map fun v => (v.1, some v.2)
  lanes := b.lanes.zipIdx.map fun l => (l.1, some l.2)

def join (lanes : List ((Int × Int) × Option Nat)) (l : Int × Int) :
    List ((Int × Int) × Option Nat) :=
  if ∃ e ∈ lanes, e.1 = l then lanes else lanes ++ [(l, none)]

/-- The edits of the console, with the entries that stay keeping their numbers. -/
def edit (t : Traced R) : Edit R → Traced R
  | .vertex x y index =>
    if 0 ≤ index then
      if index < t.vertices.length then
        { t with vertices := t.vertices.modify index.toNat fun v => (⟨x, y⟩, v.2) }
      else t
    else { t with vertices := t.vertices ++ [(⟨x, y⟩, none)] }
  | .lane p q => if p = q then t else { t with lanes := [(p, q), (q, p)].foldl join t.lanes }
  | .laneDel p q =>
    { t with lanes := t.lanes.filter fun l => ({l.1.1, l.1.2} : Finset Int) ≠ {p, q} }
  | .vertexDel i =>
    if 0 ≤ i ∧ i < t.vertices.length then
      { vertices := t.vertices.eraseIdx i.toNat
        lanes := (t.lanes.filter fun l => ¬ (l.1.1 = i ∨ l.1.2 = i)).map
          fun l => ((Bridge.shift i l.1.1, Bridge.shift i l.1.2), l.2) }
    else t

/-- Without the numbers, these are the lists of the console. -/
structure Of (t : Traced R) (b : Bridge R) : Prop where
  vertices : t.vertices.map (·.1) = b.vertices
  lanes : t.lanes.map (·.1) = b.lanes

variable {t : Traced R} {b : Bridge R}

theorem start_of (b : Bridge R) : (start b).Of b where
  vertices := by
    simp [start, Function.comp_def]
  lanes := by
    simp [start, Function.comp_def]

theorem join_of (lanes : List ((Int × Int) × Option Nat)) (l : Int × Int) :
    (join lanes l).map (·.1) = Bridge.joinLane (lanes.map (·.1)) l := by
  unfold join Bridge.joinLane
  simp only [← List.mem_map]
  split
  · rfl
  · rw [List.map_append]
    rfl

theorem Of.length (h : t.Of b) : t.vertices.length = b.vertices.length := by
  rw [← h.vertices, List.length_map]

theorem Of.move (h : t.Of b) (i : Nat) (v : Vertex R) :
    (t.vertices.modify i fun w => (v, w.2)).map (·.1) = b.vertices.set i v := by
  rw [← h.vertices]
  apply List.ext_getElem?
  intro k
  rw [List.getElem?_map, List.getElem?_modify, List.getElem?_set, List.length_map,
    List.getElem?_map]
  by_cases hk : i = k
  · subst hk
    by_cases hi : i < t.vertices.length
    · simp [hi]
    · simp [hi]
  · simp [hk]

theorem Of.edit (h : t.Of b) (e : Edit R) : (t.edit e).Of (b.edit e).1 := by
  cases e with
  | vertex x y index =>
    simp only [Traced.edit, Bridge.edit, Bridge.moveVertex, Bridge.addVertex]
    split
    · rename_i hindex
      rw [h.length]
      split
      · rename_i hlt
        rw [if_pos ⟨hindex, hlt⟩]
        exact ⟨h.move _ _, h.lanes⟩
      · rename_i hge
        rw [if_neg fun hin => hge hin.2]
        exact h
    · refine ⟨?_, h.lanes⟩
      simp [h.vertices]
  | lane p q =>
    simp only [Traced.edit, Bridge.edit, Bridge.addLane]
    split
    · exact h
    · refine ⟨h.vertices, ?_⟩
      simp only [List.foldl_cons, List.foldl_nil, join_of, h.lanes]
  | laneDel p q =>
    refine ⟨h.vertices, ?_⟩
    simp only [Traced.edit, Bridge.edit, Bridge.delLane, ← h.lanes, List.filter_map]
    rfl
  | vertexDel i =>
    simp only [Traced.edit, Bridge.edit, Bridge.delVertex, h.length]
    split
    · constructor
      · rw [← h.vertices, List.eraseIdx_map]
      · simp only [← h.lanes, List.filter_map, List.map_map]
        rfl
    · exact h

/-- The entries that were there from the start are in their order, each of them once. -/
structure Ordered (t : Traced R) : Prop where
  vertices : (t.vertices.filterMap (·.2)).Pairwise (· < ·)
  lanes : (t.lanes.filterMap (·.2)).Pairwise (· < ·)

theorem zipIdx_numbers {α : Type} (l : List α) :
    (l.zipIdx.map fun x => (x.1, some x.2)).filterMap (·.2) = List.range l.length := by
  have hsnd : l.zipIdx.filterMap (fun x => some x.2) = List.range l.length := by
    rw [← Function.comp_def, List.filterMap_eq_map, List.zipIdx_map_snd, List.range_eq_range']
  rw [List.filterMap_map]
  exact hsnd

theorem start_ordered (b : Bridge R) : (start b).Ordered := by
  constructor
  · rw [start, zipIdx_numbers]
    exact List.pairwise_lt_range
  · rw [start, zipIdx_numbers]
    exact List.pairwise_lt_range

theorem join_numbers (lanes : List ((Int × Int) × Option Nat)) (l : Int × Int) :
    (join lanes l).filterMap (·.2) = lanes.filterMap (·.2) := by
  unfold join
  split
  · rfl
  · simp

theorem modify_numbers (l : List (Vertex R × Option Nat)) (i : Nat) (v : Vertex R) :
    (l.modify i fun w => (v, w.2)).filterMap (·.2) = l.filterMap (·.2) := by
  have hnumbers : (l.modify i fun w => (v, w.2)).map (·.2) = l.map (·.2) := by
    apply List.ext_getElem?
    intro k
    rw [List.getElem?_map, List.getElem?_modify, List.getElem?_map]
    by_cases hk : i = k
    · cases l[k]? <;> simp [hk]
    · simp [hk]
  have hid (l : List (Vertex R × Option Nat)) : l.filterMap (·.2) = (l.map (·.2)).filterMap id := by
    rw [List.filterMap_map]
    rfl
  rw [hid, hnumbers, ← hid]

theorem Ordered.edit (h : t.Ordered) (e : Edit R) : (t.edit e).Ordered := by
  cases e with
  | vertex x y index =>
    unfold Traced.edit
    dsimp only
    split
    · split
      · exact ⟨modify_numbers t.vertices _ _ ▸ h.vertices, h.lanes⟩
      · exact h
    · refine ⟨?_, h.lanes⟩
      simpa using h.vertices
  | lane p q =>
    unfold Traced.edit
    dsimp only
    split
    · exact h
    · refine ⟨h.vertices, ?_⟩
      simp only [List.foldl_cons, List.foldl_nil, join_numbers]
      exact h.lanes
  | laneDel p q => exact ⟨h.vertices, h.lanes.sublist (List.filter_sublist.filterMap _)⟩
  | vertexDel i =>
    unfold Traced.edit
    dsimp only
    split
    · constructor
      · exact h.vertices.sublist ((List.eraseIdx_sublist ..).filterMap _)
      · rw [List.filterMap_map]
        exact h.lanes.sublist (List.filter_sublist.filterMap _)
    · exact h

end Traced

/-! ## Edits and saves -/

inductive DeskAction (R : Type)
  | edit (e : Edit R)
  | save

variable [Double R]

/-- The console that has been started with `c`, and where its entries come from. -/
def desk (c : Console R) : Machine (Console R × Traced R) (DeskAction R) where
  start := (c, .start c.bridge)
  step m
    | .edit e => some ({ m.1 with bridge := (m.1.bridge.edit e).1 }, m.2.edit e)
    | .save => m.1.saveNavgraph.map (·, m.2)

/-- The two lists that are edited. -/
def Edited (key : Scalar R) : Prop := key = .text "vertices" ∨ key = .text "lanes"

/-- The document is the same but for `levels.L1.vertices` and `levels.L1.lanes`. -/
def Aside (d d' : Yaml R) : Prop := d.SameOutside Edited [.text "levels", .text "L1"] d'

/-- The document has the lists of `b` in the form of `save_navgraph`. -/
def Written (b : Bridge R) (d : Yaml R) : Prop :=
  ∃ lvl, d.follow [.text "levels", .text "L1"] = some lvl ∧
    lvl.field (.text "vertices") = some (.seq (b.vertices.map vertexEntry)) ∧
    lvl.field (.text "lanes") = some (.seq (b.lanes.map Console.laneEntry))

/-- The document has a level with the two lists. -/
def Levelled (d : Yaml R) : Prop :=
  ∃ lvl vs ls, d.follow [.text "levels", .text "L1"] = some lvl ∧
    lvl.field (.text "vertices") = some vs ∧ lvl.field (.text "lanes") = some ls

section Save

variable {b : Bridge R} {c : Console R} {d d' : Yaml R}

theorem Written.levelled (h : Written b d) : Levelled d := by
  obtain ⟨lvl, hlvl, hvs, hls⟩ := h
  exact ⟨lvl, _, _, hlvl, hvs, hls⟩

theorem Levelled.aside (h : Levelled d) : Aside d d := by
  obtain ⟨lvl, vs, ls, hlvl, hvs, -⟩ := h
  exact .refl_of hlvl hvs

theorem refill_spec {lvl vs ls : Yaml R} (hvs : lvl.field (.text "vertices") = some vs)
    (hls : lvl.field (.text "lanes") = some ls) (b : Bridge R) :
    ∃ lvl', Console.refill b lvl = some lvl' ∧ lvl.SameBut Edited lvl' ∧
      lvl'.field (.text "vertices") = some (.seq (b.vertices.map vertexEntry)) ∧
      lvl'.field (.text "lanes") = some (.seq (b.lanes.map Console.laneEntry)) := by
  obtain ⟨mid, hmid⟩ := Document.assign_isSome hvs (.seq (b.vertices.map vertexEntry))
  have hls' : mid.field (.text "lanes") = some ls := by
    rw [Document.field_assign hmid, if_neg (by simp), hls]
  obtain ⟨lvl', hlvl'⟩ := Document.assign_isSome hls' (.seq (b.lanes.map Console.laneEntry))
  refine ⟨lvl', ?_, ?_, ?_, Document.field_assign_self hlvl'⟩
  · rw [Console.refill, hmid, Option.bind_eq_bind, Option.bind_some, hlvl']
  · exact (Document.assign_sameBut hvs hmid (.inl rfl)).trans
      (Document.assign_sameBut hls' hlvl' (.inr rfl))
  · rw [Document.field_assign hlvl', if_neg (by simp), Document.field_assign_self hmid]

/-- What a save writes. -/
theorem saveNavgraph_spec (h : Levelled c.ngFull) : ∃ d',
    c.saveNavgraph = some { c with ngFull := d' } ∧ Aside c.ngFull d' ∧ Written c.bridge d' := by
  obtain ⟨lvl, vs, ls, hlvl, hvs, hls⟩ := h
  obtain ⟨lvl', hrefill, hsame, hvs', hls'⟩ := refill_spec hvs hls c.bridge
  obtain ⟨d', hd'⟩ := Document.within_isSome hlvl hrefill
  obtain ⟨e, e', he, hf, he'⟩ := Document.within_spec hd'
  obtain rfl := Option.some.inj (he.symm.trans hlvl)
  obtain rfl := Option.some.inj (hf.symm.trans hrefill)
  refine ⟨d', ?_, Document.within_outside hd' hlvl hrefill hsame, e', he', hvs', hls'⟩
  rw [Console.saveNavgraph, hd']
  rfl

/-- A save that has nothing new to write. -/
theorem saveNavgraph_same (h : Written c.bridge c.ngFull) : c.saveNavgraph = some c := by
  obtain ⟨lvl, hlvl, hvs, hls⟩ := h
  have hrefill : Console.refill c.bridge lvl = some lvl := by
    rw [Console.refill, Document.assign_field hvs, Option.bind_eq_bind, Option.bind_some,
      Document.assign_field hls]
  rw [Console.saveNavgraph, Document.within_same hlvl hrefill]
  rfl

theorem Written.entries (h : Written b d) :
    d.entries "vertices" = some (b.vertices.map vertexEntry) ∧
      d.entries "lanes" = some (b.lanes.map Console.laneEntry) := by
  obtain ⟨lvl, hlvl, hvs, hls⟩ := h
  simp only [Document.entries, hlvl, hvs, hls, Option.bind_eq_bind, Option.bind_some]
  exact ⟨rfl, rfl⟩

theorem Written.vertex (h : Written b d) {k : Nat} (hk : k < b.vertices.length) :
    d.attributes "vertices" k = some [nameless] := by
  rw [Document.attributes, h.entries.1, Option.bind_some, List.getElem?_map,
    List.getElem?_eq_getElem hk]
  rfl

theorem Written.lane (h : Written b d) {k : Nat} (hk : k < b.lanes.length) :
    d.attributes "lanes" k = some [.map []] := by
  rw [Document.attributes, h.entries.2, Option.bind_some, List.getElem?_map,
    List.getElem?_eq_getElem hk]
  rfl

theorem readVertex_entry (read : Readings R) (v : Vertex R) :
    Console.readVertex read (vertexEntry v) = some v := rfl

theorem readLane_entry (read : Readings R) (l : Int × Int) :
    Console.readLane read (Console.laneEntry l) = some l := by
  simp [Console.readLane, Console.laneEntry, Document.item, Document.toInt]

/-- The console reads what it has written. -/
theorem Written.init (h : Written b d) {read : Readings R} (hinit : Console.init read d = some c) :
    Written c.bridge c.ngFull := by
  have hvertices : (b.vertices.map vertexEntry).mapM (Console.readVertex read) =
      some b.vertices := mapM_map_eq (readVertex_entry read) _
  have hlanes : (b.lanes.map Console.laneEntry).mapM (Console.readLane read) = some b.lanes :=
    mapM_map_eq (readLane_entry read) _
  simp only [Console.init, h.entries.1, h.entries.2, hvertices, hlanes, Option.bind_eq_bind,
    Option.bind_some, Option.some.injEq] at hinit
  subst hinit
  exact h

end Save

/-- What the console knows after some edits and saves. -/
structure Keeps (d : Yaml R) (m : Console R × Traced R) : Prop where
  of : m.2.Of m.1.bridge
  ordered : m.2.Ordered
  levelled : Levelled m.1.ngFull
  aside : Aside d m.1.ngFull

theorem init_keeps {read : Readings R} {d : Yaml R} {c : Console R}
    (hinit : Console.init read d = some c) : c.ngFull = d ∧ Keeps d (c, .start c.bridge) := by
  obtain ⟨vertices, hvertices, hinit⟩ := Option.bind_eq_some_iff.mp hinit
  obtain ⟨vs, -, hinit⟩ := Option.bind_eq_some_iff.mp hinit
  obtain ⟨lanes, hlanes, hinit⟩ := Option.bind_eq_some_iff.mp hinit
  obtain ⟨ls, -, hinit⟩ := Option.bind_eq_some_iff.mp hinit
  obtain rfl := Option.some.inj hinit
  obtain ⟨lvl, hlvl, hvertices⟩ := Option.bind_eq_some_iff.mp hvertices
  obtain ⟨v, hv, -⟩ := Option.bind_eq_some_iff.mp hvertices
  obtain ⟨lvl', hlvl', hlanes⟩ := Option.bind_eq_some_iff.mp hlanes
  obtain ⟨l, hl, -⟩ := Option.bind_eq_some_iff.mp hlanes
  obtain rfl := Option.some.inj (hlvl.symm.trans hlvl')
  have levelled : Levelled d := ⟨lvl, v, l, hlvl, hv, hl⟩
  exact ⟨rfl, Traced.start_of _, Traced.start_ordered _, levelled, levelled.aside⟩

theorem reach_keeps_document {d : Yaml R} {c : Console R} (hc : Keeps d (c, .start c.bridge))
    {m : Console R × Traced R} (hm : (desk c).Reach (fun _ _ => True) m) : Keeps d m := by
  refine hm.invariant (P := Keeps d) hc ?_
  intro m a m' _ hstep hkeeps
  cases a with
  | edit e =>
    obtain rfl := Option.some.inj hstep
    exact ⟨hkeeps.of.edit e, hkeeps.ordered.edit e, hkeeps.levelled, hkeeps.aside⟩
  | save =>
    obtain ⟨d', hsave, haside, hwritten⟩ := saveNavgraph_spec hkeeps.levelled
    obtain ⟨c', hc', rfl⟩ := Option.map_eq_some_iff.mp hstep
    obtain rfl := Option.some.inj (hsave.symm.trans hc')
    exact ⟨hkeeps.of, hkeeps.ordered, hwritten.levelled, hkeeps.aside.trans haside⟩

/-- Whatever has been edited, a save leaves everything outside the two lists alone. A vertex that
was there from the start keeps its attributes if they are an empty name, and a lane if it has
none. Without any edit, a save writes what was read if it had been written by a save. -/
theorem saving_attributes {read : Readings R} {d : Yaml R} {c : Console R}
    (hinit : Console.init read d = some c) :
    (∀ m, (desk c).Reach (fun _ _ => True) m → ∃ d',
      m.1.saveNavgraph = some { m.1 with ngFull := d' } ∧ Aside d d' ∧
      m.2.Of m.1.bridge ∧ m.2.Ordered ∧ Written m.1.bridge d' ∧
      (∀ k v j, m.2.vertices[k]? = some (v, some j) →
        (d'.attributes "vertices" k = d.attributes "vertices" j ↔
          d.attributes "vertices" j = some [nameless])) ∧
      ∀ k l j, m.2.lanes[k]? = some (l, some j) →
        (d'.attributes "lanes" k = d.attributes "lanes" j ↔
          d.attributes "lanes" j = some [.map []])) ∧
    (c.saveNavgraph = some c ↔ ∃ b, Written b d) := by
  obtain ⟨rfl, hstart⟩ := init_keeps hinit
  constructor
  · intro m hm
    have hkeeps := reach_keeps_document hstart hm
    obtain ⟨d', hsave, haside, hwritten⟩ := saveNavgraph_spec hkeeps.levelled
    refine ⟨d', hsave, hkeeps.aside.trans haside, hkeeps.of, hkeeps.ordered, hwritten, ?_, ?_⟩
    · intro k v j hk
      have hlt : k < m.1.bridge.vertices.length := by
        rw [← hkeeps.of.length]
        exact (List.getElem?_eq_some_iff.mp hk).1
      rw [hwritten.vertex hlt, eq_comm]
    · intro k l j hk
      have hlt : k < m.1.bridge.lanes.length := by
        rw [← hkeeps.of.lanes, List.length_map]
        exact (List.getElem?_eq_some_iff.mp hk).1
      rw [hwritten.lane hlt, eq_comm]
  · obtain ⟨d', hsave, -, hwritten⟩ := saveNavgraph_spec hstart.levelled
    constructor
    · intro h
      have hsame := congrArg Console.ngFull (Option.some.inj (hsave.symm.trans h))
      exact ⟨c.bridge, hsame ▸ hwritten⟩
    · intro h
      obtain ⟨b, hb⟩ := h
      exact saveNavgraph_same (hb.init hinit)

/-! ## A sheet with two vertices -/

namespace Sheet

def num (x : ℚ) : Yaml ℚ := .scalar (.num x)

def text (s : String) : Yaml ℚ := .scalar (.text s)

def vertex (x y : ℚ) (name : String) : Yaml ℚ :=
  .seq [num x, num y, .map [(.text "name", text name)]]

def lane (a b : ℚ) : Yaml ℚ := .seq [num a, num b, .map []]

/-- A navgraph with one lane in both directions, and with a name for the second vertex. -/
def document (name : String) : Yaml ℚ :=
  .map [(.text "building_name", text "new_map"),
    (.text "levels", .map [(.text "L1", .map [
      (.text "lanes", .seq [lane 0 1, lane 1 0]),
      (.text "vertices", .seq [vertex 0 0 "", vertex 1 0 name])])]),
    (.text "lifts", .map [])]

/-- No text is a number. -/
def readings : Readings ℚ := ⟨fun _ => none, fun _ => none, fun _ => none, fun _ => none⟩

def console (name : String) : Console ℚ :=
  ⟨⟨[], [⟨0, 0⟩, ⟨1, 0⟩], [(0, 1), (1, 0)], List.nodup_nil⟩, document name⟩

theorem init_console (name : String) :
    Console.init readings (document name) = some (console name) := rfl

end Sheet

/-- The first vertex is deleted, and the second, which has an empty name, is moved and keeps it. -/
theorem saving_attributes_empty : ∃ d', (∃ m, (desk (Sheet.console "")).Reach (fun _ _ => True) m ∧
      m.1.saveNavgraph = some { m.1 with ngFull := d' } ∧ m.2.lanes = [] ∧
      m.2.vertices = [(⟨2, 0⟩, some 1)]) ∧ Aside (Sheet.document "") d' ∧
    d'.attributes "vertices" 0 = (Sheet.document "").attributes "vertices" 1 := by
  obtain ⟨hruns, -⟩ := saving_attributes (Sheet.init_console "")
  have hdel : (desk (Sheet.console "")).Reach (fun _ _ => True) _ :=
    .step (a := .edit (.vertexDel 0)) .start trivial rfl
  have hmove : (desk (Sheet.console "")).Reach (fun _ _ => True) _ :=
    .step (a := .edit (.vertex 2 0 0)) hdel trivial rfl
  obtain ⟨d', hsave, haside, -, -, -, hvertices, -⟩ := hruns _ hmove
  exact ⟨d', ⟨_, hmove, hsave, rfl, rfl⟩, haside, (hvertices 0 _ 1 rfl).mpr rfl⟩

/-- A vertex with a name loses it with the first save, though nothing has been edited. -/
theorem saving_forgets : ¬ ∀ (read : Readings ℚ) (d : Yaml ℚ) (c : Console ℚ),
    Console.init read d = some c → ∀ m, (desk c).Reach (fun _ _ => True) m → ∀ c',
      m.1.saveNavgraph = some c' → ∀ k v j, m.2.vertices[k]? = some (v, some j) →
        c'.ngFull.attributes "vertices" k = d.attributes "vertices" j := by
  intro h
  have hkept : some [nameless] = some [.map [(.text "name", Sheet.text "A")]] :=
    h Sheet.readings _ _ (Sheet.init_console "A") _ .start _ rfl 1 _ 1 rfl
  simp [nameless, Sheet.text] at hkept

end LibiFleet
