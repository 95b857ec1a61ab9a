import LibiFleet.Assignment

/-!
# The ids of the tasks

The ids that the node makes itself, `T-N` for a request without a requester and `P-robot` for a
patrol, are never given twice. A request with a requester is given that name as its id,
whatever other tasks are called.
-/

namespace LibiFleet

variable {R : Type}

theorem toString_inj {m n : Nat} : toString m = toString n ↔ m = n := by
  constructor
  · intro h
    rw [Nat.toString_eq_ofList_toDigits, Nat.toString_eq_ofList_toDigits, String.ofList_inj] at h
    rw [← Nat.ofDigitChars_ten_toDigits (n := m), h, Nat.ofDigitChars_ten_toDigits]
  · exact congrArg toString

theorem counted_inj {m n : Nat} : "T-" ++ toString m = "T-" ++ toString n ↔ m = n := by
  rw [String.append_right_inj, toString_inj]

theorem patrol_ne_counted (robot : String) (n : Nat) : "P-" ++ robot ≠ "T-" ++ toString n := by
  intro h
  have hchars := congrArg String.toList h
  simp only [String.toList_append] at hchars
  exact absurd (List.cons.inj hchars).1 (by decide)

theorem ne_append {id stem : String} (h : ¬ stem.toList <+: id.toList) (rest : String) :
    id ≠ stem ++ rest := by
  rintro rfl
  rw [String.toList_append] at h
  exact h (List.prefix_append _ _)

/-- An accepted request: its requester, the id it is answered with, and the number of its task. -/
structure Submission where
  requester : String
  taskId : String
  number : Nat
  deriving DecidableEq

/-- The names that the requests bring are their own. -/
structure OwnNames (xs : List Submission) : Prop where
  apart : xs.Pairwise fun x y => x.requester ≠ "" → x.requester ≠ y.requester
  counted : ∀ x ∈ xs, ∀ n : Nat, x.requester ≠ "T-" ++ toString n
  patrols : ∀ x ∈ xs, ∀ robot, x.requester ≠ "P-" ++ robot

/-- The accepted requests of a run, with the counters `task_counter_` and `task_seq_` after it. -/
structure Filed (counter seq : Nat) (xs : List Submission) : Prop where
  named : ∀ x ∈ xs, x.requester ≠ "" → x.taskId = x.requester
  counted : ∀ x ∈ xs, x.requester = "" → ∃ n ≤ counter, x.taskId = "T-" ++ toString n
  fresh : ∀ x ∈ xs, ∀ y ∈ xs, x.requester = "" → y.requester = "" → x.taskId = y.taskId →
    x.number = y.number
  numbers : ∀ x ∈ xs, x.number ≤ seq
  once : xs.Pairwise (·.number ≠ ·.number)

namespace Filed

variable {counter counter' seq seq' : Nat} {xs : List Submission} {x y : Submission}

theorem nil : Filed counter seq [] :=
  ⟨by simp, by simp, by simp, by simp, .nil⟩

theorem mono (h : Filed counter seq xs) (hc : counter ≤ counter') (hs : seq ≤ seq') :
    Filed counter' seq' xs where
  named := h.named
  counted := by
    intro x hx hempty
    obtain ⟨n, hn, hid⟩ := h.counted x hx hempty
    exact ⟨n, hn.trans hc, hid⟩
  fresh := h.fresh
  numbers x hx := (h.numbers x hx).trans hs
  once := h.once

theorem add (h : Filed counter seq xs) (number : x.number = seq + 1)
    (answer : (counter', x.taskId) = if x.requester = "" then
      (counter + 1, "T-" ++ toString (counter + 1)) else (counter, x.requester)) :
    Filed counter' (seq + 1) (x :: xs) := by
  have hgrows : counter ≤ counter' := by
    split at answer
    · rw [(Prod.mk.inj answer).1]
      omega
    · exact (Prod.mk.inj answer).1.ge
  have hold := h.mono hgrows (Nat.le_succ seq)
  constructor
  · rw [List.forall_mem_cons]
    refine ⟨fun hne => ?_, hold.named⟩
    rw [if_neg hne] at answer
    exact (Prod.mk.inj answer).2
  · rw [List.forall_mem_cons]
    refine ⟨fun hempty => ?_, hold.counted⟩
    rw [if_pos hempty] at answer
    obtain ⟨rfl, hid⟩ := Prod.mk.inj answer
    exact ⟨_, le_rfl, hid⟩
  · have hnew : ∀ y ∈ xs, x.requester = "" → y.requester = "" → x.taskId ≠ y.taskId := by
      intro y hy hempty hy' heq
      rw [if_pos hempty] at answer
      obtain ⟨n, hn, hid⟩ := h.counted y hy hy'
      rw [(Prod.mk.inj answer).2, hid, counted_inj] at heq
      omega
    rw [List.forall_mem_cons]
    constructor
    · rw [List.forall_mem_cons]
      exact ⟨fun _ _ _ => rfl, fun y hy hx hy' heq => absurd heq (hnew y hy hx hy')⟩
    · intro y hy
      rw [List.forall_mem_cons]
      exact ⟨fun hy' hx heq => absurd heq.symm (hnew y hy hx hy'), h.fresh y hy⟩
  · rw [List.forall_mem_cons]
    exact ⟨number.le, hold.numbers⟩
  · refine List.pairwise_cons.mpr ⟨?_, h.once⟩
    intro y hy heq
    have := h.numbers y hy
    omega

/-- Two requests with one id: one of them has brought it. -/
theorem pairwise_named (h : Filed counter seq xs) :
    xs.Pairwise fun x y => x.taskId = y.taskId → x.requester ≠ "" ∨ y.requester ≠ "" := by
  refine h.once.imp_of_mem fun {x y} hx hy hxy heq => ?_
  by_contra hnone
  rw [not_or, not_not, not_not] at hnone
  exact hxy (h.fresh x hx y hy hnone.1 hnone.2 heq)

theorem pairwise_own (h : Filed counter seq xs) (own : OwnNames xs) :
    xs.Pairwise (·.taskId ≠ ·.taskId) := by
  refine (h.once.and own.apart).imp_of_mem fun {x y} hx hy hxy heq => ?_
  obtain ⟨hnumber, hapart⟩ := hxy
  by_cases hxe : x.requester = ""
  · by_cases hye : y.requester = ""
    · exact hnumber (h.fresh x hx y hy hxe hye heq)
    · obtain ⟨n, -, hid⟩ := h.counted x hx hxe
      exact own.counted y hy n (h.named y hy hye ▸ heq ▸ hid)
  · by_cases hye : y.requester = ""
    · obtain ⟨n, -, hid⟩ := h.counted y hy hye
      exact own.counted x hx n (h.named x hx hxe ▸ heq ▸ hid)
    · exact hapart hxe (h.named x hx hxe ▸ h.named y hy hye ▸ heq)

end Filed

variable [Double R] {p : Setup R} {c c' : Conf R} {a : Action R} {robot : String}
  {s s' : FleetNode R} {past : Past R}

def Submission.of : Conf R × Action R → Option Submission
  | (.idle s, .call (.submit req)) =>
    match s.onSubmit req with
    | some (s', res) =>
      if res.accepted then some ⟨req.requester, res.taskId, s'.taskSeq⟩ else none
    | none => none
  | _ => none

/-- The accepted requests of a run, the last one first. -/
def accepted (past : Past R) : List Submission := past.filterMap Submission.of

namespace FleetNode

variable {req : SubmitRequest} {res : SubmitResponse}

theorem accept_counters {path : List Int} {arm : Int}
    (h : s.accept req robot path arm = (s', res)) :
    res.accepted = true ∧ s'.taskSeq = s.taskSeq + 1 ∧
      (s'.taskCounter, res.taskId) = if req.requester = "" then
        (s.taskCounter + 1, "T-" ++ toString (s.taskCounter + 1))
      else (s.taskCounter, req.requester) := by
  unfold accept at h
  dsimp only at h
  have kept : (if (s.robot robot).busy then s.cancelTask robot else s).taskSeq = s.taskSeq ∧
      (if (s.robot robot).busy then s.cancelTask robot else s).taskCounter = s.taskCounter := by
    split <;> exact ⟨rfl, rfl⟩
  generalize (if (s.robot robot).busy then s.cancelTask robot else s) = m at h kept
  obtain ⟨rfl, rfl⟩ := Prod.mk.inj h
  refine ⟨rfl, congrArg (· + 1) kept.1, ?_⟩
  rw [← kept.2]
  by_cases hempty : req.requester = ""
  · simp only [if_pos hempty]
    rfl
  · simp only [if_neg hempty]
    rfl

/-- What `on_submit` does to the counters, and the id in its answer. -/
theorem onSubmit_counters (h : s.onSubmit req = some (s', res)) :
    res.accepted = false ∧ s'.taskCounter = s.taskCounter ∧ s'.taskSeq = s.taskSeq ∨
    res.accepted = true ∧ s'.taskSeq = s.taskSeq + 1 ∧
      (s'.taskCounter, res.taskId) = if req.requester = "" then
        (s.taskCounter + 1, "T-" ++ toString (s.taskCounter + 1))
      else (s.taskCounter, req.requester) := by
  unfold onSubmit at h
  dsimp only at h
  split at h
  · obtain ⟨rfl, rfl⟩ := Prod.mk.inj (Option.some.inj h)
    exact .inl ⟨rfl, rfl, rfl⟩
  obtain ⟨choice, -, h⟩ := Option.bind_eq_some_iff.mp h
  cases choice with
  | error reason =>
    obtain ⟨rfl, rfl⟩ := Prod.mk.inj (Option.some.inj h)
    exact .inl ⟨rfl, rfl, rfl⟩
  | ok robot =>
    obtain ⟨route, -, h⟩ := Option.bind_eq_some_iff.mp h
    cases route with
    | error reason =>
      obtain ⟨rfl, rfl⟩ := Prod.mk.inj (Option.some.inj h)
      exact .inl ⟨rfl, rfl, rfl⟩
    | ok path =>
      have haccept := accept_counters (Option.some.inj h)
      exact .inr haccept

end FleetNode

theorem Effect.counters (h : Effect c a robot s s') (other : ∀ req, a ≠ .call (.submit req)) :
    s'.taskCounter = s.taskCounter ∧ s.taskSeq ≤ s'.taskSeq := by
  cases h with
  | dispatch _ _ _ _ _ _ _ _ _ _ _ called => exact absurd called (other _)
  | patrol => exact ⟨rfl, Nat.le_succ _⟩
  | _ => exact ⟨rfl, le_rfl⟩

theorem Submission.of_submit {req : SubmitRequest} {res : SubmitResponse}
    (h : s.onSubmit req = some (s', res)) : Submission.of (.idle s, .call (.submit req)) =
      if res.accepted then some ⟨req.requester, res.taskId, s'.taskSeq⟩ else none := by
  unfold Submission.of
  dsimp only
  rw [h]

theorem filed_step (h : c.step a = some c') (hs : c.Sound)
    (hf : Filed c.node.taskCounter c.node.taskSeq (accepted past)) :
    Filed c'.node.taskCounter c'.node.taskSeq (accepted ((c, a) :: past)) := by
  by_cases hsub : ∃ req, a = .call (.submit req)
  · obtain ⟨req, rfl⟩ := hsub
    cases c with
    | idle s =>
      obtain ⟨s', hhandle, rfl⟩ := Option.map_eq_some_iff.mp h
      obtain ⟨⟨s', res⟩, hanswer, rfl⟩ := Option.map_eq_some_iff.mp hhandle
      obtain ⟨hno, hcounter, hseq⟩ | ⟨hyes, hseq, hid⟩ := FleetNode.onSubmit_counters hanswer
      · have hof : Submission.of (.idle s, .call (.submit req)) = none := by
          rw [Submission.of_submit hanswer, hno, if_neg Bool.false_ne_true]
        rw [accepted, List.filterMap_cons_none hof]
        exact hf.mono hcounter.ge hseq.ge
      · have hof : Submission.of (.idle s, .call (.submit req)) =
            some ⟨req.requester, res.taskId, s'.taskSeq⟩ := by
          rw [Submission.of_submit hanswer, if_pos hyes]
        rw [accepted, List.filterMap_cons_some hof]
        change Filed s'.taskCounter s'.taskSeq _
        rw [hseq]
        exact hf.add rfl hid
    | _ => cases h
  · have hother : ∀ req, a ≠ .call (.submit req) := fun req he => hsub ⟨req, he⟩
    have hof : Submission.of (c, a) = none := by
      unfold Submission.of
      split
      · rename_i heq
        exact absurd (Prod.mk.inj heq).2 (hother _)
      · rfl
    have hkept : c'.node.taskCounter = c.node.taskCounter ∧ c.node.taskSeq ≤ c'.node.taskSeq := by
      refine (step_effects hs h).keeps (P := fun s => s.taskCounter = c.node.taskCounter ∧
        c.node.taskSeq ≤ s.taskSeq) ?_ ⟨rfl, le_rfl⟩
      intro robot s s' he hkept
      obtain ⟨hcounter, hseq⟩ := he.counters hother
      exact ⟨hcounter.trans hkept.1, hkept.2.trans hseq⟩
    rw [accepted, List.filterMap_cons_none hof]
    exact hf.mono hkept.1.ge hkept.2

/-! ## The active tasks -/

/-- The numbers of the tasks: as far as the counter has come, and one for each robot. -/
structure Numbered (s : FleetNode R) : Prop where
  upto : ∀ t ∈ s.tasks, t.startSeq ≤ s.taskSeq
  once : ∀ t ∈ s.tasks, ∀ u ∈ s.tasks, t.startSeq = u.startSeq → t.robot = u.robot

namespace Numbered

omit [Double R] in
theorem keep (hs : Numbered s) (seq : s'.taskSeq = s.taskSeq)
    (old : ∀ t ∈ s'.tasks, ∃ u ∈ s.tasks, u.Continues t) : Numbered s' where
  upto := by
    intro t ht
    obtain ⟨u, hu, same⟩ := old t ht
    rw [same.startSeq, seq]
    exact hs.upto u hu
  once := by
    intro t ht t' ht' heq
    obtain ⟨u, hu, same⟩ := old t ht
    obtain ⟨u', hu', same'⟩ := old t' ht'
    rw [same.startSeq, same'.startSeq] at heq
    rw [same.robot, same'.robot]
    exact hs.once u hu u' hu' heq

omit [Double R] in
theorem join (hs : Numbered s) {t : ActiveTask R} (seq : s'.taskSeq = s.taskSeq + 1)
    (number : t.startSeq = s.taskSeq + 1) (tasks : s'.tasks = s.tasks ++ [t]) : Numbered s' where
  upto := by
    intro u hu
    rw [seq]
    rcases List.mem_append.mp (tasks ▸ hu) with hu | hu
    · exact (hs.upto u hu).trans (Nat.le_succ _)
    · rw [List.mem_singleton.mp hu, number]
  once := by
    intro u hu v hv heq
    rcases List.mem_append.mp (tasks ▸ hu) with hu | hu
    · rcases List.mem_append.mp (tasks ▸ hv) with hv | hv
      · exact hs.once u hu v hv heq
      · rw [List.mem_singleton.mp hv, number] at heq
        have := hs.upto u hu
        omega
    · rcases List.mem_append.mp (tasks ▸ hv) with hv | hv
      · rw [List.mem_singleton.mp hu, number] at heq
        have := hs.upto v hv
        omega
      · rw [List.mem_singleton.mp hu, List.mem_singleton.mp hv]

end Numbered

theorem Effect.numbered (h : Effect c a robot s s') (hs : Numbered s) : Numbered s' := by
  have renewed (seq : s'.taskSeq = s.taskSeq) (renews : Renews s.tasks s'.tasks) : Numbered s' :=
    hs.keep seq renews.old
  cases h with
  | sighting | battery | touch | mode | reload | vacate | swap | publish | stopClaim =>
    exact renewed rfl (.refl _)
  | cancel => exact hs.keep rfl fun t ht => ⟨t, (List.mem_filter.mp ht).1, .refl t⟩
  | dispatch => exact hs.join rfl rfl rfl
  | patrol => exact hs.join rfl rfl rfl
  | fail head | complete head =>
    exact hs.keep rfl fun t ht => ⟨t, head ▸ List.mem_cons_of_mem _ ht, .refl t⟩
  | look head | pass head | lap _ head =>
    exact renewed rfl (.head head rfl ⟨rfl, rfl, rfl, rfl⟩)
  | drive head => exact renewed rfl (.turn head rfl (.refl _))
  | grant _ head | hold _ _ _ _ head => exact renewed rfl (.turn head rfl ⟨rfl, rfl, rfl, rfl⟩)
  | reroute _ _ _ head =>
    exact renewed rfl (.turn head rfl (ActiveTask.detoured_continues ..))

/-- Where the id of a task comes from: from its robot, or from the answer to its request. -/
def Known (past : Past R) (t : ActiveTask R) : Prop :=
  if t.patrol then t.id = "P-" ++ t.robot
  else ∃ x ∈ accepted past, x.taskId = t.id ∧ x.number = t.startSeq

theorem Known.same {t u : ActiveTask R} (h : Known past u) (same : u.Continues t) :
    Known past t := by
  unfold Known at h ⊢
  rw [same.patrol, same.id, same.robot, same.startSeq]
  exact h

theorem Known.mono {t : ActiveTask R} (h : Known past t) (e : Conf R × Action R) :
    Known (e :: past) t := by
  unfold Known at h ⊢
  split
  · rw [if_pos ‹_›] at h
    exact h
  · rw [if_neg ‹_›] at h
    obtain ⟨x, hx, hrest⟩ := h
    obtain ⟨e', he', hof⟩ := List.mem_filterMap.mp hx
    exact ⟨x, List.mem_filterMap.mpr ⟨e', List.mem_cons_of_mem e he', hof⟩, hrest⟩

theorem Effect.known_ids (h : Effect c a robot s s') (hpast : (c, a) ∈ past)
    (hs : ∀ t ∈ s.tasks, Known past t) : ∀ t ∈ s'.tasks, Known past t := by
  intro t ht
  cases h.stems ht with
  | same here => exact hs t here
  | @dispatch s₀ s₁ tid _ _ _ _ _ sub _ _ idler _ _ _ _ called answer final =>
    have hof : Submission.of (c, a) = some ⟨sub.requester, tid, s₁.taskSeq⟩ := by
      rw [idler, called, Submission.of_submit answer]
      rfl
    have hmem : ⟨sub.requester, tid, s₁.taskSeq⟩ ∈ accepted past :=
      List.mem_filterMap.mpr ⟨_, hpast, hof⟩
    exact ⟨_, hmem, rfl, final⟩
  | patrol => rfl
  | look here | pass here | lap here | grant here | hold _ _ here =>
    exact (hs _ here).same ⟨rfl, rfl, rfl, rfl⟩
  | reroute cause here => exact (hs _ here).same (ActiveTask.detoured_continues ..)

/-- What a run keeps of its ids. -/
structure Identified (s : FleetNode R) (past : Past R) : Prop where
  filed : Filed s.taskCounter s.taskSeq (accepted past)
  ledger : Ledger s
  numbered : Numbered s
  known : ∀ t ∈ s.tasks, Known past t

theorem reach_identified {m : Conf R × Past R}
    (hm : (ticks p).traced.Reach (fun _ a => a.With Callback.Offers) m) :
    Identified m.1.node m.2 := by
  have hfiled : Filed m.1.node.taskCounter m.1.node.taskSeq (accepted m.2) := by
    refine (hm.assuming fun _ => traced_sound).invariant
      (P := fun m => Filed m.1.node.taskCounter m.1.node.taskSeq (accepted m.2)) ?_ ?_
    · exact .nil
    · rintro ⟨c, past⟩ a ⟨c', past'⟩ ⟨-, hsound⟩ hstep hf
      obtain ⟨hstep, rfl⟩ := Machine.traced_step hstep
      exact filed_step hstep hsound hf
  have htasks : Numbered m.1.node ∧ ∀ t ∈ m.1.node.tasks, Known m.2 t := by
    refine reach_remembers (P := fun s past => Numbered s ∧ ∀ t ∈ s.tasks, Known past t)
      (fun _ _ h => h) ?_ ?_ ?_ hm
    · exact ⟨⟨by simp [FleetNode.start], by simp [FleetNode.start]⟩, by simp [FleetNode.start]⟩
    · exact fun s past e h => ⟨h.1, fun t ht => (h.2 t ht).mono e⟩
    · intro c past a robot s s' _ he _ _ h
      exact ⟨he.numbered h.1, he.known_ids List.mem_cons_self h.2⟩
  exact ⟨hfiled, traced_ledger (fun _ _ h => h) hm, htasks.1, htasks.2⟩

namespace Identified

variable {t u : ActiveTask R}

/-- A task whose id no request has brought has one that the node has made. -/
theorem made (h : Identified s past) (ht : t ∈ s.tasks)
    (brought : ∀ x ∈ accepted past, x.taskId = t.id → x.requester = "") :
    t.patrol = true ∧ t.id = "P-" ++ t.robot ∨
      t.patrol = false ∧ ∃ x ∈ accepted past, x.taskId = t.id ∧ x.number = t.startSeq ∧
        ∃ n : Nat, t.id = "T-" ++ toString n := by
  have hknown := h.known t ht
  unfold Known at hknown
  split at hknown
  · exact .inl ⟨‹_›, hknown⟩
  · rename_i dispatched
    obtain ⟨x, hx, hid, hnumber⟩ := hknown
    obtain ⟨n, -, hn⟩ := h.filed.counted x hx (brought x hx hid)
    exact .inr ⟨by simpa using dispatched, x, hx, hid, hnumber, n, hid ▸ hn⟩

/-- Two tasks with one id: a request has brought it. -/
theorem brought (h : Identified s past) (ht : t ∈ s.tasks) (hu : u ∈ s.tasks)
    (hne : t.robot ≠ u.robot) (hid : t.id = u.id) :
    ∃ x ∈ accepted past, x.requester ≠ "" ∧ x.taskId = t.id := by
  by_contra hnone
  have hempty : ∀ x ∈ accepted past, x.taskId = t.id → x.requester = "" := by
    intro x hx he
    by_contra hx'
    exact hnone ⟨x, hx, hx', he⟩
  have hempty' : ∀ x ∈ accepted past, x.taskId = u.id → x.requester = "" := hid ▸ hempty
  rcases h.made ht hempty with ⟨-, hp⟩ | ⟨-, x, hx, hxid, hxn, n, hn⟩
  · rcases h.made hu hempty' with ⟨-, hp'⟩ | ⟨-, -, -, -, -, n, hn⟩
    · rw [hp, hp', String.append_right_inj] at hid
      exact hne hid
    · exact patrol_ne_counted _ n (hp.symm.trans (hid.trans hn))
  · rcases h.made hu hempty' with ⟨-, hp⟩ | ⟨-, y, hy, hyid, hyn, -⟩
    · exact patrol_ne_counted _ n (hp.symm.trans (hid.symm.trans hn))
    · have hnumber := h.filed.fresh x hx y hy (hempty x hx hxid) (hempty' y hy hyid)
        (hxid.trans (hid.trans hyid.symm))
      exact hne (h.numbered.once t ht u hu (hxn.symm.trans (hnumber.trans hyn)))

theorem own_ids (h : Identified s past) (own : OwnNames (accepted past)) (ht : t ∈ s.tasks)
    (hu : u ∈ s.tasks) (hne : t.robot ≠ u.robot) : t.id ≠ u.id := by
  intro hid
  obtain ⟨x, hx, hx', hxid⟩ := h.brought ht hu hne hid
  have hrequester : x.requester = t.id := (h.filed.named x hx hx').symm.trans hxid
  have dispatched {v : ActiveTask R} (hv : v ∈ s.tasks) (hvid : t.id = v.id) :
      ∃ y ∈ accepted past, y.taskId = v.id ∧ y.number = v.startSeq := by
    have hknown := h.known v hv
    unfold Known at hknown
    split at hknown
    · exact absurd (hrequester.trans (hvid.trans hknown)) (own.patrols x hx _)
    · exact hknown
  obtain ⟨y, hy, hyid, hyn⟩ := dispatched ht rfl
  obtain ⟨z, hz, hzid, hzn⟩ := dispatched hu hid
  have hnodup : ((accepted past).map (·.taskId)).Nodup :=
    List.pairwise_map.mpr (h.filed.pairwise_own own)
  obtain rfl := List.inj_on_of_nodup_map hnodup hy hz (hyid.trans (hid.trans hzid.symm))
  exact hne (h.numbered.once t ht u hu (hyn.symm.trans hzn))

end Identified

/-- The ids that the node makes are never given twice: two accepted requests with one answer, or
two tasks with one id, are there only when a request has brought that id as its requester. While
the names that the requests bring are different from one another and from the ids of the node, no
id is given twice. -/
theorem ids_identify {m : Conf R × Past R}
    (hm : (ticks p).traced.Reach (fun _ a => a.With Callback.Offers) m) :
    (∀ x ∈ accepted m.2, x.requester ≠ "" → x.taskId = x.requester) ∧
    (accepted m.2).Pairwise
      (fun x y => x.taskId = y.taskId → x.requester ≠ "" ∨ y.requester ≠ "") ∧
    m.1.node.tasks.Pairwise
      (fun t u => t.id = u.id → ∃ x ∈ accepted m.2, x.requester ≠ "" ∧ x.taskId = t.id) ∧
    (OwnNames (accepted m.2) →
      (accepted m.2).Pairwise (·.taskId ≠ ·.taskId) ∧ m.1.node.tasks.Pairwise (·.id ≠ ·.id)) := by
  have h := reach_identified hm
  have hrobots : m.1.node.tasks.Pairwise (·.robot ≠ ·.robot) := List.pairwise_map.mp h.ledger.once
  refine ⟨h.filed.named, h.filed.pairwise_named, ?_, ?_⟩
  · exact hrobots.imp_of_mem fun ht hu hne hid => h.brought ht hu hne hid
  · intro own
    refine ⟨h.filed.pairwise_own own, ?_⟩
    exact hrobots.imp_of_mem fun ht hu hne => h.own_ids own ht hu hne

/-- One request brings a name and one does not. -/
theorem ids_identify_two : ∃ m : Conf ℚ × Past ℚ,
    (ticks (Yard.setup false [])).traced.Reach (fun _ a => a.With Callback.Offers) m ∧
    accepted m.2 = [⟨"", "T-1", 2⟩, ⟨"box", "box", 1⟩] ∧
    m.1.node.tasks.Pairwise (·.id ≠ ·.id) := by
  obtain ⟨m, hm, hcheck⟩ := (ticks (Yard.setup false [])).traced.exists_reach
    (fun _ a => a.With Callback.Steady)
    (fun m => decide (accepted m.2 = [⟨"", "T-1", 2⟩, ⟨"box", "box", 1⟩]))
    [.call (Yard.seen "r1" 0 0), .call (Yard.seen "r2" 20 0),
      .call (.submit ⟨"1", "box", "r1", 0, 0⟩), .call (Yard.send "r2" "4")]
    (by decide +kernel)
  have haccepted : accepted m.2 = [⟨"", "T-1", 2⟩, ⟨"box", "box", 1⟩] := of_decide_eq_true hcheck
  have hoffers : (ticks (Yard.setup false [])).traced.Reach
      (fun _ a => a.With Callback.Offers) m :=
    hm.mono fun _ _ h => h.mono fun _ => Callback.Steady.offers
  have own : OwnNames (accepted m.2) := by
    rw [haccepted]
    constructor
    · decide
    all_goals
      simp only [List.forall_mem_cons, List.not_mem_nil, false_implies, implies_true, and_true]
      constructor
      all_goals
        intro x
        exact ne_append (by decide) _
  exact ⟨m, hoffers, haccepted, ((ids_identify hoffers).2.2.2 own).2⟩

/-- Two requests with the same requester. -/
theorem requester_shared : ¬ ∀ (p : Setup ℚ) (m : Conf ℚ × Past ℚ),
    (ticks p).traced.Reach (fun _ a => a.With Callback.Steady) m →
    m.1.node.tasks.Pairwise (·.id ≠ ·.id) ∧ (accepted m.2).Pairwise (·.taskId ≠ ·.taskId) := by
  intro h
  obtain ⟨m, hm, hcheck⟩ := (ticks (Yard.setup false [])).traced.exists_reach
    (fun _ a => a.With Callback.Steady)
    (fun m => decide (accepted m.2 = [⟨"amy", "amy", 2⟩, ⟨"amy", "amy", 1⟩]))
    [.call (Yard.seen "r1" 0 0), .call (Yard.seen "r2" 20 0),
      .call (.submit ⟨"1", "amy", "r1", 0, 0⟩), .call (.submit ⟨"4", "amy", "r2", 0, 0⟩)]
    (by decide +kernel)
  have haccepted : accepted m.2 = [⟨"amy", "amy", 2⟩, ⟨"amy", "amy", 1⟩] :=
    of_decide_eq_true hcheck
  have hids := (h _ m hm).2
  rw [haccepted] at hids
  exact absurd hids (by decide)

end LibiFleet
