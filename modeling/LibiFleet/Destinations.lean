import LibiFleet.Completion
import LibiFleet.Dispatch
import LibiFleet.Ids
import Mathlib.Data.List.TakeWhile

/-!
# The destination of a submission

`dropoff` is read by `std::stoi`, which takes the number at the start of the text and does
not look at the rest. A text is accepted for a vertex it does not write out in just the cases
where it has a blank, a sign, a zero too much or something after the number.
-/

namespace LibiFleet

open FleetNode (goalOf armActionsOf)

/-- A number written out: digits alone, and no zero before others. -/
structure PlainNumber (text : String) : Prop where
  nonempty : text.toList ≠ []
  digits : ∀ c ∈ text.toList, c.isDigit = true
  trimmed : text.toList.head? = some '0' → text.toList = ['0']

theorem isDigit_toNat {c : Char} (h : c.isDigit = true) : 48 ≤ c.toNat ∧ c.toNat ≤ 57 := by
  simpa [Char.isDigit, UInt32.le_iff_toNat_le] using h

/-- The digit that is written for the value of a digit. -/
theorem digitChar_toNat {c : Char} (h : c.isDigit = true) : (c.toNat - 48).digitChar = c := by
  have hc := isDigit_toNat h
  apply Char.toNat_inj.mp
  rw [Nat.toNat_digitChar_of_lt_ten (by omega)]
  omega

/-- Digits after a number that is not zero. -/
theorem toDigits_append {cs : List Char} (hcs : ∀ c ∈ cs, c.isDigit = true) : ∀ n, 0 < n →
    Nat.toDigits 10 n ++ cs = Nat.toDigits 10 (Nat.ofDigitChars 10 cs n) := by
  induction cs with
  | nil => simp
  | cons c cs ih =>
    intro n hn
    have hc := hcs c List.mem_cons_self
    have hlt : c.toNat - 48 < 10 := by
      have := isDigit_toNat hc
      omega
    have hstep := Nat.toDigits_append_toDigits (b := 10) (by decide) hn hlt
    rw [Nat.toDigits_of_lt_base hlt, digitChar_toNat hc] at hstep
    rw [List.append_cons, hstep, Nat.ofDigitChars_cons]
    exact ih (fun d hd => hcs d (List.mem_cons_of_mem _ hd)) _ (by omega)

theorem toDigits_head {n : Nat} (h : (Nat.toDigits 10 n).head? = some '0') : n = 0 := by
  induction n using Nat.strong_induction_on with
  | _ n ih =>
    by_cases hn : n < 10
    · rw [Nat.toDigits_of_lt_base hn, List.head?_cons, Option.some.injEq] at h
      exact Nat.digitChar_eq_zero.mp h
    · have hne : Nat.toDigits 10 (n / 10) ≠ [] := Nat.toDigits_ne_nil
      rw [Nat.toDigits_of_base_le (by decide) (by omega), List.head?_append_of_ne_nil _ hne] at h
      have := ih (n / 10) (by omega) h
      omega

theorem toList_toString (n : Nat) : (toString n).toList = Nat.toDigits 10 n := by
  rw [Nat.toString_eq_ofList_toDigits, String.toList_ofList]

theorem isDigit_toDigits {n : Nat} {c : Char} (hc : c ∈ Nat.toDigits 10 n) : c.isDigit = true :=
  Nat.isDigit_of_mem_toDigits (by decide) (by decide) hc

/-- The texts that write a number out are the decimal representations. -/
theorem plainNumber_iff (text : String) : PlainNumber text ↔ ∃ n : Nat, text = toString n := by
  constructor
  · intro h
    cases hchars : text.toList with
    | nil => exact absurd hchars h.nonempty
    | cons c cs =>
      have hdigits := h.digits
      rw [hchars] at hdigits
      have hc := hdigits c List.mem_cons_self
      refine ⟨Nat.ofDigitChars 10 cs (c.toNat - 48), ?_⟩
      rw [Nat.toString_eq_ofList_toDigits, ← String.toList_inj, String.toList_ofList, hchars]
      by_cases hzero : c = '0'
      · have hone := h.trimmed
        rw [hchars, hzero] at hone
        obtain ⟨-, rfl⟩ := List.cons.inj (hone rfl)
        rw [hzero]
        rfl
      · have hpos : 0 < c.toNat - 48 := by
          have hlow := isDigit_toNat hc
          have hne : c.toNat ≠ '0'.toNat := fun heq => hzero (Char.toNat_inj.mp heq)
          change c.toNat ≠ 48 at hne
          omega
        rw [← toDigits_append (fun d hd => hdigits d (List.mem_cons_of_mem _ hd)) _ hpos,
          Nat.toDigits_of_lt_base (by have := isDigit_toNat hc; omega), digitChar_toNat hc]
        rfl
  · intro h
    obtain ⟨n, rfl⟩ := h
    constructor
    · rw [toList_toString]
      exact Nat.toDigits_ne_nil
    · intro c hc
      rw [toList_toString] at hc
      exact isDigit_toDigits hc
    · intro hhead
      rw [toList_toString] at hhead ⊢
      rw [toDigits_head hhead]
      rfl

/-- The digits are added up among the integers. -/
theorem foldl_digits (cs : List Char) : ∀ n : Nat,
    cs.foldl (fun n d => 10 * n + ((d.toNat - 48 : Nat) : Int)) (n : Int) =
      (Nat.ofDigitChars 10 cs n : Nat) := by
  induction cs with
  | nil => exact fun n => rfl
  | cons c cs ih =>
    intro n
    rw [List.foldl_cons, Nat.ofDigitChars_cons, ← ih]
    rfl

/-- A text of digits is read to its end. -/
theorem stoi_digits {text : String} {n : Nat} (hne : text.toList ≠ [])
    (hdigits : ∀ c ∈ text.toList, c.isDigit = true) (hn : Nat.ofDigitChars 10 text.toList 0 = n) :
    stoi text = if n ≤ 2147483647 then some (n : Int) else none := by
  have htake : text.toList.takeWhile Char.isDigit = text.toList :=
    List.takeWhile_eq_self_iff.mpr hdigits
  have hfold := foldl_digits text.toList 0
  rw [hn, Nat.cast_zero] at hfold
  unfold stoi
  cases hchars : text.toList with
  | nil => exact absurd hchars hne
  | cons c cs =>
    rw [hchars] at hdigits htake hfold
    have hc := isDigit_toNat (hdigits c List.mem_cons_self)
    have hblank : [9, 10, 11, 12, 13, 32].contains c.toNat = false := by
      simp
      omega
    have hminus : c ≠ '-' := by
      rintro rfl
      simp at hc
    have hplus : c ≠ '+' := by
      rintro rfl
      simp at hc
    rw [List.dropWhile_cons_of_neg (by simpa using hblank)]
    dsimp only
    split
    · rename_i h
      exact absurd (List.cons.inj h).1 hminus
    · rename_i h
      exact absurd (List.cons.inj h).1 hplus
    · simp only [htake, hfold, List.isEmpty_cons, Bool.false_eq_true, if_false]
      by_cases hfits : n ≤ 2147483647
      · rw [if_pos hfits, if_pos (by omega)]
      · rw [if_neg hfits, if_neg (by omega)]

/-- A number that is written out is read back, if it fits into an `int`. -/
theorem stoi_toString (n : Nat) :
    stoi (toString n) = if n ≤ 2147483647 then some (n : Int) else none := by
  apply stoi_digits
  · rw [toList_toString]
    exact Nat.toDigits_ne_nil
  · intro c hc
    rw [toList_toString] at hc
    exact isDigit_toDigits hc
  · rw [toList_toString]
    exact Nat.ofDigitChars_ten_toDigits

variable {R : Type} [Double R] {s s' : FleetNode R} {req : SubmitRequest} {res : SubmitResponse}

/-- The request is accepted only if its text writes out the number of a vertex, which is then the
goal of the new task, and any other text is rejected. -/
structure Exact (s : FleetNode R) (req : SubmitRequest) : Prop where
  accepted : ∀ s' res, s.onSubmit req = some (s', res) → res.accepted = true →
    ∃ n : Nat, req.dropoff = toString n ∧ s.graph.InRange n ∧
      ∃ t, s'.tasks.getLast? = some t ∧ t.id = res.taskId ∧ t.back = n
  refused : (¬ ∃ n : Nat, req.dropoff = toString n ∧ s.graph.InRange n) →
    s.onSubmit req = some (s, .rejected "bad_goal_vertex")

omit [Double R] in
theorem selectRobot_reason {goal arm : Int} {robot reason : String}
    (h : s.selectRobot goal arm robot = some (.error reason)) : reason ≠ "bad_goal_vertex" := by
  unfold FleetNode.selectRobot at h
  split at h
  · split at h
    · cases h
      decide
    · split at h
      · cases h
        decide
      · cases h
  · obtain ⟨winner, -, h⟩ := Option.bind_eq_some_iff.mp h
    split at h
    · cases h
      decide
    · cases h

theorem checkRoute_reason {goal arm : Int} {robot reason : String}
    (h : s.checkRoute robot goal arm = some (.error reason)) : reason ≠ "bad_goal_vertex" := by
  unfold FleetNode.checkRoute at h
  dsimp only at h
  generalize (if s.graph.nearest (s.robot robot).x (s.robot robot).y = goal then [goal, goal]
    else s.graph.dijkstra (s.graph.nearest (s.robot robot).x (s.robot robot).y) goal (-1)) = route
    at h
  split at h
  · cases h
    decide
  · obtain ⟨cost, -, h⟩ := Option.bind_eq_some_iff.mp h
    split at h
    · cases h
      decide
    · cases h

theorem onSubmit_bad (h : ¬ s.graph.InRange (goalOf req)) :
    s.onSubmit req = some (s, .rejected "bad_goal_vertex") := by
  have hbad : goalOf req < 0 ∨ s.graph.size ≤ goalOf req := by
    unfold Navgraph.InRange at h
    omega
  unfold FleetNode.onSubmit
  exact if_pos hbad

/-- What a submission for a vertex is answered with. -/
theorem onSubmit_vertex (hgoal : s.graph.InRange (goalOf req))
    (h : s.onSubmit req = some (s', res)) :
    (res.accepted = false ∧ res.reason ≠ "bad_goal_vertex") ∨
      res.accepted = true ∧
        ∃ t, s'.tasks.getLast? = some t ∧ t.id = res.taskId ∧ t.back = goalOf req := by
  have hvertex : ¬ (goalOf req < 0 ∨ s.graph.size ≤ goalOf req) := by
    obtain ⟨hnonneg, hlt⟩ := hgoal
    omega
  unfold FleetNode.onSubmit at h
  dsimp only at h
  rw [if_neg hvertex] at h
  obtain ⟨choice, hchoice, h⟩ := Option.bind_eq_some_iff.mp h
  cases choice with
  | error reason =>
    cases h
    exact .inl ⟨rfl, selectRobot_reason hchoice⟩
  | ok robot =>
    obtain ⟨check, hcheck, h⟩ := Option.bind_eq_some_iff.mp h
    cases check with
    | error reason =>
      cases h
      exact .inl ⟨rfl, checkRoute_reason hcheck⟩
    | ok path =>
      right
      obtain ⟨t, ht, rfl, hid, -⟩ := FleetNode.accept_task (Option.some.inj h)
      obtain ⟨long, route⟩ := checkRoute_ok hcheck
      refine ⟨congrArg (fun out => out.2.accepted) (Option.some.inj h).symm, t, ht, hid, ?_⟩
      rw [ActiveTask.back, List.getLastD_eq_getLast?, route_last route long]
      rfl

omit [Double R] in
/-- What is read from a text that writes a vertex number out. -/
theorem goalOf_plain {n : Nat} (hn : req.dropoff = toString n)
    (hgoal : s.graph.InRange (goalOf req)) : goalOf req = n := by
  have hstoi := stoi_toString n
  rw [← hn] at hstoi
  have hnonneg := hgoal.1
  unfold goalOf at hnonneg ⊢
  rw [hstoi] at hnonneg ⊢
  split at hnonneg
  · rename_i hfits
    rw [if_pos hfits]
    rfl
  · simp at hnonneg

/-- The destinations are what they should be but for the texts from which `std::stoi` reads a
vertex number that they do not write out. -/
theorem destination_exact_iff (s : FleetNode R) (req : SubmitRequest) :
    Exact s req ↔ (s.graph.InRange (goalOf req) → PlainNumber req.dropoff) := by
  constructor
  · intro h hgoal
    by_contra hplain
    have hrefused := h.refused (by
      rintro ⟨n, hn, -⟩
      exact hplain ((plainNumber_iff _).mpr ⟨n, hn⟩))
    obtain ⟨-, hreason⟩ | ⟨haccepted, -⟩ := onSubmit_vertex hgoal hrefused
    · exact hreason rfl
    · cases haccepted
  · intro h
    constructor
    · intro s' res hsubmit haccepted
      by_cases hgoal : s.graph.InRange (goalOf req)
      · obtain ⟨n, hn⟩ := (plainNumber_iff _).mp (h hgoal)
        have hread := goalOf_plain hn hgoal
        obtain ⟨hrejected, -⟩ | ⟨-, t, ht, hid, hback⟩ := onSubmit_vertex hgoal hsubmit
        · rw [haccepted] at hrejected
          cases hrejected
        · rw [hread] at hgoal hback
          exact ⟨n, hn, hgoal, t, ht, hid, hback⟩
      · rw [onSubmit_bad hgoal] at hsubmit
        cases hsubmit
        cases haccepted
    · intro hno
      apply onSubmit_bad
      intro hgoal
      obtain ⟨n, hn⟩ := (plainNumber_iff _).mp (h hgoal)
      have hread := goalOf_plain hn hgoal
      rw [hread] at hgoal
      exact hno ⟨n, hn, hgoal⟩

/-- A text that begins with the number of a vertex sends the robot there. -/
theorem destination_prefix : ¬ ∀ (p : Setup ℚ) (s : FleetNode ℚ),
    (fleet p).Reach (fun _ cb => cb.Plain) s → ∀ req, Exact s req := by
  intro h
  obtain ⟨s, hs, hp⟩ := (fleet (Yard.setup false [])).exists_reach (fun _ cb => cb.Plain)
    (fun s => (s.onSubmit ⟨"1F, room 4", "", "r1", 0, 0⟩).any fun out => out.2.accepted)
    [Yard.seen "r1" 0 0] (by decide +kernel)
  obtain ⟨⟨s', res⟩, hsubmit, haccepted⟩ := (Option.any_eq_true _ _).mp hp
  obtain ⟨n, hn, -⟩ := (h _ s hs ⟨"1F, room 4", "", "r1", 0, 0⟩).accepted s' res hsubmit haccepted
  have hplain : PlainNumber "1F, room 4" := (plainNumber_iff _).mpr ⟨n, hn⟩
  have hdigit : 'F'.isDigit = true := hplain.digits 'F' (by simp)
  simp at hdigit

end LibiFleet
