import LibiFleet.Destinations
import LibiFleet.Json

/-!
# The texts on the wire

`/fms/occupancy`, `/fms/goals` and `/fms/routes` carry JSON that the node puts together itself. The
console reads it with `json.loads`, and keeps what it has where that fails.
-/

namespace LibiFleet

open Json
open Std (ExtTreeMap)

variable {R : Type} [Double R]

/-- To the nearest integer, halves to the even one. -/
def roundEven (x : R) : Int :=
  if x - ⌊x⌋ < 1 / 2 then ⌊x⌋
  else if 1 / 2 < x - ⌊x⌋ then ⌊x⌋ + 1
  else if ⌊x⌋ % 2 = 0 then ⌊x⌋
  else ⌊x⌋ + 1

/-- The digits of `%f`, without the point. -/
def micros (x : R) : Nat := (roundEven ((if x < 0 then -x else x) * 10 ^ 6)).toNat

/-- `std::to_string` of a `double`. -/
def fixed (x : R) : String :=
  (if x < 0 then "-" else "") ++ toString (micros x / 10 ^ 6) ++ "." ++
    String.ofList ((Nat.toDigits 10 (micros x % 10 ^ 6)).leftpad 6 '0')

/-- The number that the text stands for. -/
def sixDecimals (x : R) : R := signed (x < 0) (micros x) / ((10 : Nat) : R) ^ 6

/-- The data of `/fms/occupancy`. -/
def occupancyText (nodes : List (Int × String)) : String :=
  "\x7b" ++ ",".intercalate (nodes.map fun no =>
    "\"" ++ toString no.1 ++ "\":\"" ++ no.2 ++ "\"") ++ "\x7d"

/-- The data of `/fms/goals`. -/
def goalsText (goals : List (String × Int)) : String :=
  "\x7b" ++ ",".intercalate (goals.map fun g => "\"" ++ g.1 ++ "\":" ++ toString g.2) ++ "\x7d"

def pointText (v : Vertex R) : String := "[" ++ fixed v.x ++ "," ++ fixed v.y ++ "]"

/-- The data of `/fms/routes`. -/
def routesText (routes : List (String × List (Vertex R))) : String :=
  "\x7b" ++ ",".intercalate (routes.map fun r =>
    "\"" ++ r.1 ++ "\":[" ++ ",".intercalate (r.2.map pointText) ++ "]") ++ "\x7d"

section Numbers

variable {x : R} {n k : Nat}

theorem roundEven_close (x : R) : |(roundEven x : R) - x| ≤ 1 / 2 := by
  have hlow := Int.fract_nonneg x
  have hhigh := Int.fract_lt_one x
  rw [Int.fract] at hlow hhigh
  unfold roundEven
  split_ifs with h h' h''
  · rw [abs_le]
    constructor <;> linarith
  · rw [abs_le]
    push_cast
    constructor <;> linarith
  · rw [abs_le]
    constructor <;> linarith
  · rw [abs_le]
    push_cast
    constructor <;> linarith

theorem roundEven_nonneg (h : 0 ≤ x) : 0 ≤ roundEven x := by
  have hfloor : 0 ≤ ⌊x⌋ := Int.floor_nonneg.mpr h
  unfold roundEven
  split_ifs <;> omega

/-- What is read differs from the number by half of the last digit at most. -/
theorem sixDecimals_close (x : R) : |sixDecimals x - x| ≤ 1 / 2 / 10 ^ 6 := by
  have hpow : (0 : R) < 10 ^ 6 := by positivity
  have hten : ((10 : Nat) : R) = 10 := by norm_num
  have habs (y : R) (hy : 0 ≤ y) : |((roundEven (y * 10 ^ 6)).toNat : R) / 10 ^ 6 - y| ≤
      1 / 2 / 10 ^ 6 := by
    have hnonneg := roundEven_nonneg (mul_nonneg hy hpow.le)
    have hcast : ((roundEven (y * 10 ^ 6)).toNat : R) = (roundEven (y * 10 ^ 6) : R) := by
      rw [← Int.cast_natCast, Int.toNat_of_nonneg hnonneg]
    calc |((roundEven (y * 10 ^ 6)).toNat : R) / 10 ^ 6 - y|
      _ = |((roundEven (y * 10 ^ 6) : R) - y * 10 ^ 6) / 10 ^ 6| := by
        rw [hcast, sub_div, mul_div_cancel_right₀ _ hpow.ne']
      _ = |(roundEven (y * 10 ^ 6) : R) - y * 10 ^ 6| / 10 ^ 6 := by rw [abs_div, abs_of_pos hpow]
      _ ≤ 1 / 2 / 10 ^ 6 := div_le_div_of_nonneg_right (roundEven_close _) hpow.le
  rw [sixDecimals, micros, hten]
  by_cases hx : x < 0
  · have h := habs (-x) (by linarith)
    rw [if_pos hx, signed, decide_eq_true hx, if_pos rfl, Int.cast_neg, Int.cast_natCast, neg_div,
      ← abs_neg]
    rwa [show -(-(((roundEven (-x * 10 ^ 6)).toNat : R) / 10 ^ 6) - x) =
      ((roundEven (-x * 10 ^ 6)).toNat : R) / 10 ^ 6 - -x by ring]
  · have h := habs x (not_lt.mp hx)
    rw [if_neg hx, signed, decide_eq_false hx, if_neg Bool.false_ne_true, Int.cast_natCast]
    exact h

theorem numeral_toDigits (n : Nat) : Numeral (Nat.toDigits 10 n) := by
  have h := (plainNumber_iff (toString n)).mpr ⟨n, rfl⟩
  rw [← toList_toString]
  exact ⟨h.nonempty, h.digits, h.trimmed⟩

theorem toList_toString_int (z : Int) :
    (toString z).toList = written (decide (z < 0)) (Nat.toDigits 10 z.natAbs) := by
  cases z with
  | ofNat m => exact toList_toString m
  | negSucc m =>
    have htext : toString (Int.negSucc m) = "-" ++ toString (m + 1) := rfl
    rw [htext, String.toList_append, toList_toString, written,
      decide_eq_true (Int.negSucc_lt_zero m), if_pos rfl]
    rfl

theorem reads_toString (z : Int) :
    Reads (scan (F := R) (n + 1)) (toString z).toList (.scalar (.int z)) := by
  have h := reads_int (F := R) (n := n) (z < 0) (numeral_toDigits z.natAbs)
  have hz : signed (decide (z < 0)) z.natAbs = z := by
    unfold signed
    split
    · rename_i hneg
      have := of_decide_eq_true hneg
      omega
    · rename_i hneg
      have : ¬ z < 0 := fun h => hneg (decide_eq_true h)
      omega
  rwa [Nat.ofDigitChars_ten_toDigits, hz, ← toList_toString_int] at h

theorem reads_fixed (x : R) :
    Reads (scan (n + 1)) (fixed x).toList (.scalar (.float (sixDecimals x))) := by
  have hlt : micros x % 10 ^ 6 < 10 ^ 6 := Nat.mod_lt _ (by decide)
  have hlen : ((Nat.toDigits 10 (micros x % 10 ^ 6)).leftpad 6 '0').length = 6 := by
    rw [List.length_leftpad]
    exact max_eq_left ((Nat.length_toDigits_le_iff (by decide) (by decide)).mpr hlt)
  have hdigits : ∀ c ∈ (Nat.toDigits 10 (micros x % 10 ^ 6)).leftpad 6 '0', c.isDigit = true := by
    intro c hc
    rcases List.mem_append.mp hc with hc | hc
    · rw [List.eq_of_mem_replicate hc]
      rfl
    · exact isDigit_toDigits hc
  have h := reads_float (F := R) (n := n) (x < 0)
    (numeral_toDigits (micros x / 10 ^ 6)) (List.ne_nil_of_length_eq_add_one hlen) hdigits
  have hvalue : Nat.ofDigitChars 10 (Nat.toDigits 10 (micros x / 10 ^ 6) ++
      (Nat.toDigits 10 (micros x % 10 ^ 6)).leftpad 6 '0') 0 = micros x := by
    rw [Nat.ofDigitChars_append, Nat.ofDigitChars_ten_toDigits,
      Nat.ofDigitChars_eq_ofDigitChars_zero, hlen, List.leftpad, Nat.ofDigitChars_append,
      Nat.ofDigitChars_replicate_zero, Nat.mul_zero, Nat.ofDigitChars_ten_toDigits]
    exact Nat.div_add_mod ..
  have htext : (fixed x).toList = written (decide (x < 0)) (Nat.toDigits 10 (micros x / 10 ^ 6) ++
      '.' :: (Nat.toDigits 10 (micros x % 10 ^ 6)).leftpad 6 '0') := by
    unfold fixed written
    by_cases hx : x < 0
    · simp [hx]
    · simp [hx]
  rwa [hvalue, hlen, ← sixDecimals, ← htext] at h

end Numbers

section Texts

variable {n : Nat}

/-- A whole text of keys and values. -/
theorem loads_map {β : Type} {text : String} {value : β → Document (Atom R)} (es : List β)
    (key : β → String) (part : β → List Char) (nodup : (es.map key).Nodup)
    (unescaped : ∀ e ∈ es, Unescaped (key e))
    (h : ∀ e ∈ es, ∀ n, 3 ≤ n → Reads (scan n) (part e) (value e))
    (htext : text.toList = '\x7b' ::
      (joined (es.map fun e => '"' :: ((key e).toList ++ '"' :: ':' :: part e)) ++ ['\x7d'])) :
    loads text = some (.map (es.map fun e => (.text (key e), value e))) := by
  apply loads_eq
  rw [htext]
  refine reads_map nodup unescaped ?_
  intro e he
  refine h e he _ ?_
  -- a key and its value take more room than their depth
  obtain ⟨e', es, rfl⟩ := List.exists_cons_of_ne_nil (List.ne_nil_of_mem he)
  rw [joined_cons]
  simp only [List.length_cons, List.length_append]
  omega

theorem toString_int_injective : Function.Injective (toString : Int → String) := by
  intro z z' h
  have hread (z : Int) := (reads_toString (R := ℚ) (n := 0) z).reads [] (by simp [Ends])
  have heq := (hread z).symm.trans (h ▸ hread z')
  simpa using heq

theorem unescaped_toString (z : Int) : Unescaped (toString z) := by
  intro c hc
  rw [toList_toString_int, written] at hc
  have hdigit (hc : c ∈ Nat.toDigits 10 z.natAbs) : c ≠ '"' ∧ c ≠ '\\' ∧ 32 ≤ c.toNat := by
    have hd := isDigit_toDigits hc
    refine ⟨?_, ?_, ?_⟩
    · rintro rfl
      cases hd
    · rintro rfl
      cases hd
    · have := isDigit_toNat hd
      omega
  split at hc
  · rcases List.mem_cons.mp hc with rfl | hc
    · decide
    · exact hdigit hc
  · exact hdigit hc

theorem loads_occupancyText {nodes : List (Int × String)} (nodup : (nodes.map (·.1)).Nodup)
    (names : ∀ no ∈ nodes, Unescaped no.2) : loads (F := R) (occupancyText nodes) =
      some (.map (nodes.map fun no => (.text (toString no.1), .scalar (.text no.2)))) := by
  refine loads_map nodes (fun no => toString no.1) (fun no => '"' :: (no.2.toList ++ ['"'])) ?_
    (fun no _ => unescaped_toString no.1) ?_ ?_
  · have hmap := nodup.map toString_int_injective
    rw [List.map_map] at hmap
    exact hmap
  · intro no hno n hn
    obtain ⟨n, rfl⟩ := Nat.exists_eq_add_of_le' hn
    exact reads_text (names no hno)
  · simp [occupancyText, joined, String.toList_intercalate, Function.comp_def]

theorem loads_goalsText {goals : List (String × Int)} (nodup : (goals.map (·.1)).Nodup)
    (names : ∀ g ∈ goals, Unescaped g.1) : loads (F := R) (goalsText goals) =
      some (.map (goals.map fun g => (.text g.1, .scalar (.int g.2)))) := by
  refine loads_map goals (·.1) (fun g => (toString g.2).toList) nodup names ?_ ?_
  · intro g _ n hn
    obtain ⟨n, rfl⟩ := Nat.exists_eq_add_of_le' hn
    exact reads_toString g.2
  · simp [goalsText, joined, String.toList_intercalate, Function.comp_def]

/-- A vertex as it is read. -/
def point (v : Vertex R) : Document (Atom R) :=
  .seq [.scalar (.float (sixDecimals v.x)), .scalar (.float (sixDecimals v.y))]

theorem reads_pointText (v : Vertex R) :
    Reads (scan (n + 2)) (pointText v).toList (point v) := by
  have h : Reads (scan (n + 2))
      ('[' :: (joined ([v.x, v.y].map fun x => (fixed x).toList) ++ [']']))
      (.seq ([v.x, v.y].map fun x => .scalar (.float (sixDecimals x)))) :=
    reads_seq fun x _ => reads_fixed x
  have htext : (pointText v).toList =
      '[' :: (joined ([v.x, v.y].map fun x => (fixed x).toList) ++ [']']) := by
    simp [pointText, joined]
  rwa [← htext] at h

theorem loads_routesText {routes : List (String × List (Vertex R))}
    (nodup : (routes.map (·.1)).Nodup) (names : ∀ r ∈ routes, Unescaped r.1) :
    loads (routesText routes) =
      some (.map (routes.map fun r => (.text r.1, .seq (r.2.map point)))) := by
  refine loads_map routes (·.1)
    (fun r => '[' :: (joined (r.2.map fun v => (pointText v).toList) ++ [']'])) nodup names ?_ ?_
  · intro r _ n hn
    obtain ⟨n, rfl⟩ := Nat.exists_eq_add_of_le' hn
    exact reads_seq fun v _ => reads_pointText v
  · simp [routesText, joined, String.toList_intercalate, Function.comp_def]

end Texts

/-! ## The console -/

namespace Bridge

/-- `occupancy`, `routes` and `goals` of the bridge. -/
structure View (R : Type) where
  occupancy : Document (Atom R)
  routes : Document (Atom R)
  goals : Document (Atom R)

def View.empty : View R := ⟨.map [], .map [], .map []⟩

/-- `json.loads` in a `try` that goes on with what there was. -/
def refresh (old : Document (Atom R)) (data : String) : Document (Atom R) :=
  (loads data).getD old

def onOcc (b : View R) (data : String) : View R := { b with occupancy := refresh b.occupancy data }

def onRoutes (b : View R) (data : String) : View R := { b with routes := refresh b.routes data }

def onGoals (b : View R) (data : String) : View R := { b with goals := refresh b.goals data }

/-- A message of the node, of which the console hears three kinds here. -/
def hear (b : View R) : Event R → View R
  | .occupancy nodes => onOcc b (occupancyText nodes)
  | .routes routes => onRoutes b (routesText routes)
  | .goals goals => onGoals b (goalsText goals)
  | _ => b

/-- What the console has after the messages, of which the last one is first. -/
def shown (log : List (Event R)) : View R := log.foldr (fun e b => hear b e) .empty

end Bridge

namespace Callback

/-- The robots of the callback have names that need no escape. -/
def Legible : Callback R → Prop
  | robotState msg => Unescaped msg.name
  | setBattery req => Unescaped req.robot
  | _ => True

omit [Double R] in
instance : DecidablePred (Legible (R := R))
  | robotState msg => inferInstanceAs (Decidable (Unescaped msg.name))
  | setBattery req => inferInstanceAs (Decidable (Unescaped req.robot))
  | submit _ | timer | setPlugins .. | reload _ | setMode _ => inferInstanceAs (Decidable True)

end Callback

/-- The robots of the node, and the owners of its nodes, have names that need no escape. -/
structure Legible (s : FleetNode R) : Prop where
  robots : ∀ k ∈ s.robots, Unescaped k
  owners : ∀ v r, s.traffic.owner v = some r → Unescaped r

section Legible

variable {p : Setup R} {c : Conf R} {a : Action R} {robot : String} {s s' : FleetNode R}

/-- A robot that makes a request is known. -/
theorem Effect.known_or_sheds (h : Effect c a robot s s') (hl : Ledger s)
    (steady : a.With Callback.Steady) :
    robot ∈ s.robots ∨ ReservationDeadlock.Sheds robot s.traffic s'.traffic := by
  cases h with
  | sighting | battery | mode | reload | publish => exact .inr (.refl ..)
  | cancel => exact .inr (s.cancelTask_sheds robot)
  | vacate => exact .inr (s.releaseAll_sheds robot)
  | touch chosen => exact .inl (hl.chosen chosen).1
  | stopClaim _ _ known =>
    exact .inl (ExtTreeMap.mem_iff_isSome_getElem?.mpr (by rw [known]; rfl))
  | dispatch _ _ _ known => exact .inl known
  | patrol _ known =>
    rw [(hl.entry known).1]
    exact .inl known
  | look head | pass head | lap _ head | drive head | grant _ head | reroute _ _ _ head
  | hold _ _ _ _ head | fail head | complete head =>
    exact .inl (hl.known _ (by simp [head]))
  | swap _ _ _ _ called => exact (steady.not_swap called).elim

theorem Effect.robots_legible (h : Effect c a robot s s') (hl : Ledger s)
    (names : a.With Callback.Legible) (hs : ∀ k ∈ s.robots, Unescaped k) :
    ∀ k ∈ s'.robots, Unescaped k := by
  intro k hk
  rcases h.newcomer hl hk with hold | ⟨msg, rfl, rfl⟩ | ⟨req, rfl, rfl⟩
  · exact hs k hold
  · exact names
  · exact names

theorem reach_names (hc : (ticks p).Reach (fun _ a => a.With fun cb => cb.Offers ∧ cb.Legible) c) :
    ∀ k ∈ c.node.robots, Unescaped k := by
  refine reach_books (P := fun s => ∀ k ∈ s.robots, Unescaped k)
    (fun _ _ h => h.mono fun _ h => h.1) ?_ ?_ hc
  · exact fun k hk => absurd hk ExtTreeMap.not_mem_empty
  · exact fun c a robot s s' ok he _ hl hs => he.robots_legible hl (ok.mono fun _ h => h.2) hs

theorem Effect.legible (h : Effect c a robot s s') (hw : Wellformed s)
    (plain : a.With Callback.Plain) (names : a.With Callback.Legible) (hs : Legible s) :
    Legible s' where
  robots := h.robots_legible hw.ledger names hs.robots
  owners := by
    intro v r hv
    by_cases hr : r = robot
    · subst hr
      rcases h.known_or_sheds hw.ledger plain.steady with known | sheds
      · exact hs.robots r known
      · rcases sheds.owner v with hsame | ⟨-, hnone⟩
        · exact hs.owners v r (hsame ▸ hv)
        · rw [hnone] at hv
          cases hv
    · exact hs.owners v r ((h.alone plain.steady hw.named r hr v).mp hv)

theorem reach_legible
    (hc : (ticks p).Reach (fun _ a => a.With fun cb => cb.Plain ∧ cb.Legible) c) :
    Wellformed c.node ∧ Legible c.node := by
  have hplain {a : Action R} (ha : a.With fun cb => cb.Plain ∧ cb.Legible) :
      a.With Callback.Plain := ha.mono fun _ h => h.1
  refine (hc.assuming fun _ hc => reach_sound hc).invariant
    (P := fun c => Wellformed c.node ∧ Legible c.node) ⟨wellformed_start p, ?_, ?_⟩ ?_
  · exact fun k hk => absurd hk ExtTreeMap.not_mem_empty
  · intro v r hv
    have hnone : (FleetNode.start p).traffic.owner v = none := ExtTreeMap.getElem?_empty
    cases hnone.symm.trans hv
  · intro c a c' ok hstep hc
    refine (step_effects ok.2 hstep).keeps (P := fun s => Wellformed s ∧ Legible s) ?_ hc
    rintro robot s s' he ⟨hw, hs⟩
    exact ⟨he.wellformed hw hc.1 (hplain ok.1), he.legible hw (hplain ok.1)
      (ok.1.mono fun _ h => h.2) hs⟩

end Legible

/-! ## After a tick -/

section Mirror

variable {p : Setup R} {s s' : FleetNode R}

/-- What is found in a mapping that has been written from its entries. -/
theorem field_entries {K V : Type} [DecidableEq K] {m : List (K × V)} {f : K → Atom R}
    (nodup : (m.map (·.1)).Nodup) (hf : f.Injective) (g : V → Document (Atom R)) (k : K)
    (d : Document (Atom R)) :
    (Document.map (m.map fun e => (f e.1, g e.2))).field (f k) = some d ↔
      ∃ v, (k, v) ∈ m ∧ g v = d := by
  rw [Document.field, lookup_map hf, Option.map_eq_some_iff]
  simp only [lookup_iff_mem nodup]

omit [Double R] in
theorem text_injective : Function.Injective (Atom.text : String → Atom R) :=
  fun _ _ h => Atom.text.inj h

theorem occupancy_read {σ : ReservationDeadlock}
    (names : ∀ v r, σ.owner v = some r → Unescaped r) :
    ∃ d, loads (F := R) (occupancyText σ.occupancy) = some d ∧ ∀ v e,
      d.field (.text (toString v)) = some e ↔
        ∃ r, σ.owner v = some r ∧ .scalar (.text r) = e := by
  have nodup : (σ.occupancy.map (·.1)).Nodup := by
    rw [ReservationDeadlock.occupancy, ExtTreeMap.map_fst_toList_eq_keys]
    exact ExtTreeMap.nodup_keys
  have hmem (v : Int) (r : String) : (v, r) ∈ σ.occupancy ↔ σ.owner v = some r :=
    ExtTreeMap.mem_toList_iff_getElem?_eq_some
  have hkey : Function.Injective fun v : Int => (Atom.text (toString v) : Atom R) :=
    text_injective.comp toString_int_injective
  refine ⟨_, loads_occupancyText nodup fun no hno => names _ _ ((hmem no.1 no.2).mp hno), ?_⟩
  intro v e
  refine (field_entries nodup hkey (fun r => .scalar (.text r)) v e).trans ?_
  simp only [hmem]

theorem goals_read {tasks : List (ActiveTask R)} (once : (tasks.map (·.robot)).Nodup)
    (names : ∀ t ∈ tasks, Unescaped t.robot) :
    ∃ d, loads (F := R)
        (goalsText ((tasks.filter (!·.patrol)).map fun t => (t.robot, t.back))) = some d ∧
      ∀ r e, d.field (.text r) = some e ↔
        ∃ t ∈ tasks, t.robot = r ∧ t.patrol = false ∧ .scalar (.int t.back) = e := by
  have nodup : (((tasks.filter (!·.patrol)).map fun t => (t.robot, t.back)).map (·.1)).Nodup := by
    rw [List.map_map]
    exact once.sublist (List.filter_sublist.map _)
  refine ⟨_, loads_goalsText nodup ?_, ?_⟩
  · intro e he
    obtain ⟨t, ht, rfl⟩ := List.mem_map.mp he
    exact names t (List.mem_filter.mp ht).1
  · intro r e
    refine (field_entries nodup text_injective (fun g => .scalar (.int g)) r e).trans ?_
    constructor
    · rintro ⟨g, hg, rfl⟩
      obtain ⟨t, ht, heq⟩ := List.mem_map.mp hg
      obtain ⟨rfl, rfl⟩ := Prod.mk.inj heq
      obtain ⟨ht, dispatched⟩ := List.mem_filter.mp ht
      exact ⟨t, ht, rfl, by simpa using dispatched, rfl⟩
    · rintro ⟨t, ht, rfl, dispatched, rfl⟩
      exact ⟨t.back, List.mem_map_of_mem (List.mem_filter.mpr ⟨ht, by simpa using dispatched⟩), rfl⟩

/-- A report of the tasks, entry by entry. -/
theorem mapM_entries {α β γ : Type} {f : α → Option β} {key : α → γ} {l : List α}
    {entries : List (γ × β)} (h : (l.mapM fun a => (f a).map (key a, ·)) = some entries) :
    entries.map (·.1) = l.map key ∧
      ∀ k b, (k, b) ∈ entries ↔ ∃ a ∈ l, key a = k ∧ f a = some b := by
  induction l generalizing entries with
  | nil =>
    obtain rfl := Option.some.inj h
    simp
  | cons a l ih =>
    rw [List.mapM_cons] at h
    obtain ⟨e, he, h⟩ := Option.bind_eq_some_iff.mp h
    obtain ⟨es, hes, h⟩ := Option.bind_eq_some_iff.mp h
    obtain rfl := Option.some.inj h
    obtain ⟨b, hb, rfl⟩ := Option.map_eq_some_iff.mp he
    obtain ⟨hkeys, hmem⟩ := ih hes
    refine ⟨by rw [List.map_cons, List.map_cons, hkeys], ?_⟩
    intro k b'
    rw [List.mem_cons, hmem, List.exists_mem_cons_iff, Prod.mk.injEq, hb, Option.some.injEq]
    constructor
    · rintro (⟨rfl, rfl⟩ | h)
      · exact .inl ⟨rfl, rfl⟩
      · exact .inr h
    · rintro (⟨rfl, rfl⟩ | h)
      · exact .inl ⟨rfl, rfl⟩
      · exact .inr h

theorem routes_read {routes : List (String × List (Vertex R))}
    (h : (s.tasks.mapM fun t => (s.remaining t).map (t.robot, ·)) = some routes)
    (once : (s.tasks.map (·.robot)).Nodup) (names : ∀ t ∈ s.tasks, Unescaped t.robot) :
    ∃ d, loads (routesText routes) = some d ∧ ∀ r e, d.field (.text r) = some e ↔
      ∃ t ∈ s.tasks, t.robot = r ∧
        (s.remaining t).map (fun vs => .seq (vs.map point)) = some e := by
  obtain ⟨hkeys, hmem⟩ := mapM_entries h
  have nodup : (routes.map (·.1)).Nodup := hkeys ▸ once
  refine ⟨_, loads_routesText nodup ?_, ?_⟩
  · intro e he
    obtain ⟨t, ht, hr, -⟩ := (hmem e.1 e.2).mp he
    exact hr ▸ names t ht
  · intro r e
    refine (field_entries nodup text_injective (fun vs => .seq (vs.map point)) r e).trans ?_
    simp only [hmem, Option.map_eq_some_iff]
    constructor
    · rintro ⟨vs, ⟨t, ht, hr, hvs⟩, rfl⟩
      exact ⟨t, ht, hr, vs, hvs, rfl⟩
    · rintro ⟨t, ht, hr, vs, hvs, rfl⟩
      exact ⟨vs, ⟨t, ht, hr, hvs⟩, rfl⟩

/-- The console has the goals and the rest of the routes of the tasks, with the places in six
decimals, and nothing else. -/
structure ShowsTasks (b : Bridge.View R) (s : FleetNode R) : Prop where
  goals : ∀ r e, b.goals.field (.text r) = some e ↔
    ∃ t ∈ s.tasks, t.robot = r ∧ t.patrol = false ∧ .scalar (.int t.back) = e
  routes : ∀ r e, b.routes.field (.text r) = some e ↔
    ∃ t ∈ s.tasks, t.robot = r ∧ (s.remaining t).map (fun vs => .seq (vs.map point)) = some e

/-- It also has the reservations. -/
structure Mirrors (b : Bridge.View R) (s : FleetNode R) : Prop extends ShowsTasks b s where
  occupancy : ∀ v e, b.occupancy.field (.text (toString v)) = some e ↔
    ∃ r, s.traffic.owner v = some r ∧ .scalar (.text r) = e

theorem publish_tasks (h : s.publish = some s') (once : (s.tasks.map (·.robot)).Nodup)
    (names : ∀ t ∈ s.tasks, Unescaped t.robot) : ShowsTasks (Bridge.shown s'.log) s' := by
  obtain ⟨routes, hroutes, h⟩ := Option.bind_eq_some_iff.mp h
  obtain rfl := Option.some.inj h
  obtain ⟨goals, hgoals, ends⟩ := goals_read once names
  obtain ⟨rest, hrest, ways⟩ := routes_read hroutes once names
  -- whatever the console had before
  let b := Bridge.shown s.log
  have hgoals : Bridge.refresh b.goals
      (goalsText ((s.tasks.filter (!·.patrol)).map fun t => (t.robot, t.back))) = goals := by
    rw [Bridge.refresh, hgoals, Option.getD_some]
  have hrest : Bridge.refresh b.routes (routesText routes) = rest := by
    rw [Bridge.refresh, hrest, Option.getD_some]
  constructor
  · subst hgoals
    exact ends
  · subst hrest
    exact ways

theorem publish_mirrors (h : s.publish = some s') (once : (s.tasks.map (·.robot)).Nodup)
    (known : ∀ t ∈ s.tasks, t.robot ∈ s.robots) (names : Legible s) :
    Mirrors (Bridge.shown s'.log) s' where
  toShowsTasks := publish_tasks h once fun t ht => names.robots _ (known t ht)
  occupancy := by
    obtain ⟨routes, -, h⟩ := Option.bind_eq_some_iff.mp h
    obtain rfl := Option.some.inj h
    obtain ⟨occ, hocc, owners⟩ := occupancy_read (R := R) names.owners
    have hocc : Bridge.refresh (Bridge.shown s.log).occupancy
        (occupancyText s.traffic.occupancy) = occ := by
      rw [Bridge.refresh, hocc, Option.getD_some]
    subst hocc
    exact owners

/-- After every tick the console shows what the node has, with no place off by more than half of
the sixth decimal. -/
theorem console_mirrors (hs : (fleet p).Reach (fun _ cb => cb.Plain ∧ cb.Legible) s)
    (h : s.onTimer = some s') : Mirrors (Bridge.shown s'.log) s' ∧
      ∀ x : R, |sixDecimals x - x| ≤ 1 / 2 / 10 ^ 6 := by
  have hs' : (fleet p).Reach (fun _ cb => cb.Plain ∧ cb.Legible) s' :=
    .step (a := .timer) hs ⟨⟨trivial, trivial⟩, trivial⟩ h
  obtain ⟨hw, names⟩ := reach_legible (reach_ticks hs')
  obtain ⟨s₁, -, h⟩ := Option.bind_eq_some_iff.mp h
  obtain ⟨⟨core, tasks⟩, -, h⟩ := Option.bind_eq_some_iff.mp h
  obtain ⟨events, hevents, -⟩ := FleetNode.publish_eq h
  subst hevents
  exact ⟨publish_mirrors h hw.ledger.once hw.ledger.known ⟨names.robots, names.owners⟩,
    sixDecimals_close⟩

theorem console_mirrors_two : ∃ s s' : FleetNode ℚ, s.onTimer = some s' ∧
    (Bridge.shown s'.log).occupancy.field (.text "1") = some (.scalar (.text "r1")) ∧
    (Bridge.shown s'.log).goals.field (.text "r1") = some (.scalar (.int 2)) := by
  obtain ⟨s, hs, hcheck⟩ := (fleet (Yard.setup false [])).exists_reach
    (fun _ cb => cb.Plain ∧ cb.Legible)
    (fun s => s.onTimer.any fun s' : FleetNode ℚ => decide (s'.traffic.owner 1 = some "r1" ∧
      ∃ t ∈ s'.tasks, t.robot = "r1" ∧ t.patrol = false ∧ t.back = 2))
    [Yard.seen "r1" 0 0, Yard.send "r1" "2"] (by decide +kernel)
  obtain ⟨s', h, hcheck⟩ := (Option.any_eq_true _ _).mp hcheck
  obtain ⟨howner, task⟩ := of_decide_eq_true hcheck
  have mirrors := (console_mirrors hs h).1
  obtain ⟨t, ht, hr, dispatched, hback⟩ := task
  exact ⟨s, s', h, (mirrors.occupancy 1 _).mpr ⟨"r1", howner, rfl⟩,
    (mirrors.goals "r1" _).mpr ⟨t, ht, hr, dispatched, hback ▸ rfl⟩⟩

-- A quote in a name, and the console does not hear of the reservations at all.
example : (loads (F := ℚ) (occupancyText [(3, "r\"1")])).isNone := by decide +kernel

end Mirror

end LibiFleet
