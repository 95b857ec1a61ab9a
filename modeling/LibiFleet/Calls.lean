import LibiFleet.Machine
import Mathlib.Data.List.Perm.Basic

/-!
# Calls

A client calls a server and waits for the answer, but not for ever. The server takes a
call at any time after it was made, also when the client has gone on without it. The
calls of a run are kept in the order in which they were made.
-/

namespace LibiFleet

/-- What the server does by itself and what it answers, and what the client writes down when it
calls and when it gets the answer. The server dies where `serve` is `none`. -/
structure Service (S C A Q P : Type*) where
  server : Machine S A
  serve : S → Q → Option (S × P)
  client : C
  begins : C → Q → C
  ends : C → Q → P → C

/-- What the client knows of its call. -/
inductive Outcome (P : Type*)
  | waiting
  | answered (answer : P)
  | gone
  deriving DecidableEq

/-- A call, with the answer of the server if it has taken it. -/
structure Exchange (Q P : Type*) where
  request : Q
  taken : Option P
  outcome : Outcome P

def Exchange.open {Q P : Type*} (k : Exchange Q P) : Bool :=
  match k.outcome with
  | .waiting => true
  | _ => false

structure Line (S C Q P : Type*) where
  server : S
  client : C
  calls : List (Exchange Q P)

/-- The server does something by itself, the client does not find it, the client calls, the server
takes a call, the client gets the answer, the client goes on without. -/
inductive Move (A Q : Type*)
  | own (a : A)
  | miss (q : Q)
  | call (q : Q)
  | take (i : Nat)
  | answer (i : Nat)
  | leave (i : Nat)

/-- What the server does by itself has `F`. -/
def Move.With {A Q : Type*} (F : A → Prop) : Move A Q → Prop
  | .own a => F a
  | _ => True

instance {A Q : Type*} {F : A → Prop} [DecidablePred F] : DecidablePred (Move.With (Q := Q) F)
  | .own a => inferInstanceAs (Decidable (F a))
  | .miss _ | .call _ | .take _ | .answer _ | .leave _ => inferInstanceAs (Decidable True)

namespace Service

variable {S C A Q P B X W V : Type*} (T : Service S C A Q P)

def step (l : Line S C Q P) : Move A Q → Option (Line S C Q P)
  | .own a => (T.server.step l.server a).map fun s => { l with server := s }
  | .miss q => some { l with client := T.begins l.client q }
  | .call q =>
    some { l with client := T.begins l.client q, calls := l.calls ++ [⟨q, none, .waiting⟩] }
  | .take i =>
    match l.calls[i]? with
    | some ⟨q, none, o⟩ =>
      (T.serve l.server q).map fun r =>
        { l with server := r.1, calls := l.calls.set i ⟨q, some r.2, o⟩ }
    | _ => none
  | .answer i =>
    match l.calls[i]? with
    | some ⟨q, some p, .waiting⟩ =>
      some { l with
        client := T.ends l.client q p
        calls := l.calls.set i ⟨q, some p, .answered p⟩ }
    | _ => none
  | .leave i =>
    match l.calls[i]? with
    | some ⟨q, taken, .waiting⟩ => some { l with calls := l.calls.set i ⟨q, taken, .gone⟩ }
    | _ => none

def line : Machine (Line S C Q P) (Move A Q) := ⟨⟨T.server.start, T.client, []⟩, T.step⟩

/-- What a move does, with the other calls around the one that it is about. -/
inductive Moves (l : Line S C Q P) : Move A Q → Line S C Q P → Prop
  | own {a : A} {s : S} (h : T.server.step l.server a = some s) :
      Moves l (.own a) ⟨s, l.client, l.calls⟩
  | miss {q : Q} : Moves l (.miss q) ⟨l.server, T.begins l.client q, l.calls⟩
  | call {q : Q} :
      Moves l (.call q) ⟨l.server, T.begins l.client q, l.calls ++ [⟨q, none, .waiting⟩]⟩
  | take {before after : List (Exchange Q P)} {q : Q} {o : Outcome P} {s : S} {p : P}
      (here : l.calls = before ++ ⟨q, none, o⟩ :: after)
      (served : T.serve l.server q = some (s, p)) :
      Moves l (.take before.length) ⟨s, l.client, before ++ ⟨q, some p, o⟩ :: after⟩
  | answer {before after : List (Exchange Q P)} {q : Q} {p : P}
      (here : l.calls = before ++ ⟨q, some p, .waiting⟩ :: after) :
      Moves l (.answer before.length)
        ⟨l.server, T.ends l.client q p, before ++ ⟨q, some p, .answered p⟩ :: after⟩
  | leave {before after : List (Exchange Q P)} {q : Q} {taken : Option P}
      (here : l.calls = before ++ ⟨q, taken, .waiting⟩ :: after) :
      Moves l (.leave before.length)
        ⟨l.server, l.client, before ++ ⟨q, taken, .gone⟩ :: after⟩

theorem split_at {α : Type*} {l : List α} {i : Nat} {a : α} (h : l[i]? = some a) :
    ∃ before after, l = before ++ a :: after ∧ before.length = i ∧
      ∀ b, l.set i b = before ++ b :: after := by
  obtain ⟨hi, rfl⟩ := List.getElem?_eq_some_iff.mp h
  refine ⟨l.take i, l.drop (i + 1), ?_, ?_, ?_⟩
  · rw [← List.drop_eq_getElem_cons hi, List.take_append_drop]
  · rw [List.length_take, Nat.min_eq_left (Nat.le_of_lt hi)]
  · intro b
    exact List.set_eq_take_append_cons_drop.trans (if_pos hi)

variable {T} {l l' : Line S C Q P} {m : Move A Q}

theorem step_moves (h : T.step l m = some l') : T.Moves l m l' := by
  cases m with
  | own a =>
    obtain ⟨s, hs, rfl⟩ := Option.map_eq_some_iff.mp h
    exact .own hs
  | miss q =>
    obtain rfl := Option.some.inj h
    exact .miss
  | call q =>
    obtain rfl := Option.some.inj h
    exact .call
  | take i =>
    rw [step] at h
    split at h
    · rename_i q o hi
      obtain ⟨⟨s, p⟩, hs, rfl⟩ := Option.map_eq_some_iff.mp h
      obtain ⟨before, after, here, rfl, hset⟩ := split_at hi
      have hmoves := Moves.take (T := T) here hs
      rwa [← hset] at hmoves
    · cases h
  | answer i =>
    rw [step] at h
    split at h
    · rename_i q p hi
      obtain ⟨before, after, here, rfl, hset⟩ := split_at hi
      have hmoves := Moves.answer (T := T) here
      rw [← hset] at hmoves
      exact Option.some.inj h ▸ hmoves
    · cases h
  | leave i =>
    rw [step] at h
    split at h
    · rename_i q taken hi
      obtain ⟨before, after, here, rfl, hset⟩ := split_at hi
      have hmoves := Moves.leave (T := T) here
      rw [← hset] at hmoves
      exact Option.some.inj h ▸ hmoves
    · cases h

variable {ok : Line S C Q P → Move A Q → Prop}

/-- What every call has when it is made, and keeps when it is taken, answered and left alone, is so
of all calls. -/
theorem forall_calls {F : Exchange Q P → Prop} (new : ∀ q, F ⟨q, none, .waiting⟩)
    (take : ∀ q o p, F ⟨q, none, o⟩ → F ⟨q, some p, o⟩)
    (answer : ∀ q p, F ⟨q, some p, .waiting⟩ → F ⟨q, some p, .answered p⟩)
    (leave : ∀ q taken, F ⟨q, taken, .waiting⟩ → F ⟨q, taken, .gone⟩)
    (hl : T.line.Reach ok l) : ∀ k ∈ l.calls, F k := by
  have middle {before after : List (Exchange Q P)} {k k' : Exchange Q P}
      (h : ∀ j ∈ before ++ k :: after, F j) (hk : F k → F k') :
      ∀ j ∈ before ++ k' :: after, F j := by
    rw [List.forall_mem_append, List.forall_mem_cons] at h ⊢
    exact ⟨h.1, hk h.2.1, h.2.2⟩
  refine hl.invariant (P := fun l => ∀ k ∈ l.calls, F k) (List.forall_mem_nil _) ?_
  intro l m l' _ hstep hall
  cases step_moves hstep with
  | own | miss => exact hall
  | call =>
    rw [List.forall_mem_append, List.forall_mem_singleton]
    exact ⟨hall, new _⟩
  | take here => exact middle (here ▸ hall) (take _ _ _)
  | answer here => exact middle (here ▸ hall) (answer _ _)
  | leave here => exact middle (here ▸ hall) (leave _ _)

/-- The answer that the client gets is the server's. -/
theorem answered_taken (hl : T.line.Reach ok l) :
    ∀ k ∈ l.calls, ∀ p, k.outcome = .answered p → k.taken = some p := by
  refine forall_calls ?_ ?_ ?_ ?_ hl
  · intro q p h
    cases h
  · intro q o p h p' ho
    cases h p' ho
  · intro q p _ p' h
    cases h
    rfl
  · intro q taken _ p h
    cases h

/-- The server goes through a run of its own. -/
theorem reach_server {M : Machine S B} {good : S → B → Prop} (start : M.start = T.server.start)
    (own : ∀ l a s, ok l (.own a) → T.server.step l.server a = some s →
      ∃ b, good l.server b ∧ M.step l.server b = some s)
    (serve : ∀ l i k s p, ok l (.take i) → l.calls[i]? = some k →
      T.serve l.server k.request = some (s, p) → ∃ b, good l.server b ∧ M.step l.server b = some s)
    (hl : T.line.Reach ok l) : M.Reach good l.server := by
  induction hl with
  | start =>
    show M.Reach good T.server.start
    rw [← start]
    exact .start
  | @step l l' m _ hok hstep ih =>
    cases step_moves hstep with
    | own h =>
      obtain ⟨b, hb, hs⟩ := own _ _ _ hok h
      exact .step ih hb hs
    | @take before after q o s p here h =>
      have hk : l.calls[before.length]? = some ⟨q, none, o⟩ := by simp [here]
      obtain ⟨b, hb, hs⟩ := serve _ _ ⟨q, none, o⟩ _ _ hok hk h
      exact .step ih hb hs
    | miss | call | answer | leave => exact ih

/-- What the server has gained comes from the calls that it has taken, from each of them once. -/
theorem tally {f : S → List X} {g : Q → P → List X} (start : f T.server.start = [])
    (own : ∀ l a s, ok l (.own a) → T.server.step l.server a = some s → f s = f l.server)
    (serve : ∀ s q s' p, T.serve s q = some (s', p) → f s' = g q p ++ f s)
    (hl : T.line.Reach ok l) :
    (f l.server).Perm (l.calls.flatMap fun k => k.taken.elim [] (g k.request)) := by
  induction hl with
  | start => exact .of_eq start
  | @step l l' m _ hok hstep ih =>
    cases step_moves hstep with
    | own h =>
      rw [own _ _ _ hok h]
      exact ih
    | miss => exact ih
    | call =>
      rw [List.flatMap_append]
      simpa using ih
    | take here h =>
      rw [serve _ _ _ _ h]
      rw [here] at ih
      simp only [List.flatMap_append, List.flatMap_cons, Option.elim_none, Option.elim_some,
        List.nil_append] at ih ⊢
      exact ((List.Perm.refl _).append ih).trans (List.perm_append_comm_assoc ..)
    | answer here | leave here =>
      rw [here] at ih
      simpa only [List.flatMap_append, List.flatMap_cons] using ih

/-! ## What the client shows -/

/-- Something that the server has and the client shows. `enter` and `leave` are what the calls
about it write when they are made and when they are answered. Of all the calls about it the
client makes those that are `mine`. -/
structure Entry (T : Service S C A Q P) (W V : Type*) where
  about : Q → Bool
  mine : Q → Bool
  held : S → W
  shown : C → V
  agrees : W → V → Prop
  enter : Q → V → V
  leave : Q → P → V → V

namespace Entry

variable (E : Entry T W V)

/-- Only a call about it touches it, and a whole call leaves both sides in agreement. -/
structure Sound (good : S → A → Prop) : Prop where
  start : E.agrees (E.held T.server.start) (E.shown T.client)
  own : ∀ s a s', good s a → T.server.step s a = some s' →
    ∀ v, E.agrees (E.held s) v → E.agrees (E.held s') v
  aside : ∀ s q s' p, E.about q = false → T.serve s q = some (s', p) →
    ∀ v, E.agrees (E.held s) v → E.agrees (E.held s') v
  served : ∀ s q s' p v, E.about q = true → E.mine q = true → T.serve s q = some (s', p) →
    E.agrees (E.held s) v → E.agrees (E.held s') (E.leave q p (E.enter q v))
  begins : ∀ c q, E.shown (T.begins c q) = if E.about q then E.enter q (E.shown c) else E.shown c
  ends : ∀ c q p, E.shown (T.ends c q p) = if E.about q then E.leave q p (E.shown c) else E.shown c

/-- The calls about it are the client's, they follow one another, and each of them is answered. -/
def Calm (good : S → A → Prop) (l : Line S C Q P) : Move A Q → Prop
  | .own a => good l.server a
  | .miss q => E.about q = false
  | .call q => E.about q = true →
    E.mine q = true ∧ ∀ k ∈ l.calls, E.about k.request = true → k.open = false
  | .take _ | .answer _ => True
  | .leave i => ∀ k ∈ l.calls[i]?, E.about k.request = false

instance (good : S → A → Prop) [∀ s a, Decidable (good s a)] (l : Line S C Q P) :
    DecidablePred (E.Calm good l)
  | .own a => inferInstanceAs (Decidable (good l.server a))
  | .miss q => inferInstanceAs (Decidable (E.about q = false))
  | .call q => inferInstanceAs (Decidable (E.about q = true →
      E.mine q = true ∧ ∀ k ∈ l.calls, E.about k.request = true → k.open = false))
  | .take _ | .answer _ => inferInstanceAs (Decidable True)
  | .leave i => inferInstanceAs (Decidable (∀ k ∈ l.calls[i]?, E.about k.request = false))

def pending (k : Exchange Q P) : Bool := E.about k.request && k.open

/-- No call about it is under way, or one that has not been taken, or one that has. -/
inductive Stage (l : Line S C Q P) : Prop
  | settled (none : l.calls.filter E.pending = [])
      (agrees : E.agrees (E.held l.server) (E.shown l.client))
  | asked (q : Q) (v : V) (one : l.calls.filter E.pending = [⟨q, none, .waiting⟩])
      (mine : E.mine q = true) (agrees : E.agrees (E.held l.server) v)
      (entered : E.shown l.client = E.enter q v)
  | taken (q : Q) (p : P) (one : l.calls.filter E.pending = [⟨q, some p, .waiting⟩])
      (agrees : E.agrees (E.held l.server) (E.leave q p (E.shown l.client)))

/-- A call about it that has not been taken is waited for. -/
def Awaited (l : Line S C Q P) : Prop :=
  ∀ k ∈ l.calls, E.about k.request = true → k.taken = none → k.open = true

variable {E} {before after : List (Exchange Q P)} {k k' : Exchange Q P} {good : S → A → Prop}

theorem pending_aside (hk : E.about k.request = false) (hk' : E.about k'.request = false) :
    (before ++ k' :: after).filter E.pending = (before ++ k :: after).filter E.pending := by
  simp [pending, hk, hk']

/-- The only call under way. -/
theorem pending_only {k₀ : Exchange Q P} (hk : E.pending k = true)
    (h : (before ++ k :: after).filter E.pending = [k₀]) :
    k = k₀ ∧ before.filter E.pending = [] ∧ after.filter E.pending = [] := by
  rw [List.filter_append, List.filter_cons_of_pos hk, List.append_eq_singleton_iff] at h
  obtain ⟨hbefore, h⟩ | ⟨-, h⟩ := h
  · obtain ⟨rfl, hafter⟩ := List.cons.inj h
    exact ⟨rfl, hbefore, hafter⟩
  · cases h

theorem pending_change (hbefore : before.filter E.pending = [])
    (hafter : after.filter E.pending = []) :
    (before ++ k' :: after).filter E.pending = [k'].filter E.pending := by
  rw [List.filter_append, hbefore, List.nil_append, ← List.singleton_append, List.filter_append,
    hafter, List.append_nil]

theorem not_pending (none : l.calls.filter E.pending = []) (hk : k ∈ l.calls) :
    E.pending k = false :=
  Bool.eq_false_iff.mpr (List.filter_eq_nil_iff.mp none k hk)

theorem Stage.keep (h : E.Stage l) (calls : l'.calls.filter E.pending = l.calls.filter E.pending)
    (shown : E.shown l'.client = E.shown l.client)
    (agrees : ∀ v, E.agrees (E.held l.server) v → E.agrees (E.held l'.server) v) : E.Stage l' := by
  cases h with
  | settled none hagrees => exact .settled (calls.trans none) (shown ▸ agrees _ hagrees)
  | asked q v one mine hagrees entered =>
    exact .asked q v (calls.trans one) mine (agrees _ hagrees) (shown.trans entered)
  | taken q p one hagrees => exact .taken q p (calls.trans one) (shown ▸ agrees _ hagrees)

theorem Awaited.change (h : E.Awaited l) (here : l.calls = before ++ k :: after)
    (hk : E.about k'.request = true → k'.taken = none → k'.open = true)
    (calls : l'.calls = before ++ k' :: after) : E.Awaited l' := by
  rw [Awaited, here, List.forall_mem_append, List.forall_mem_cons] at h
  rw [Awaited, calls, List.forall_mem_append, List.forall_mem_cons]
  exact ⟨h.1, hk, h.2.2⟩

/-- Nobody goes on without the answer to a call about it. -/
theorem Calm.aside {q : Q} {taken : Option P} {o : Outcome P}
    (calm : E.Calm good l (.leave before.length))
    (here : l.calls = before ++ ⟨q, taken, o⟩ :: after) : E.about q = false := by
  refine calm ⟨q, taken, o⟩ ?_
  rw [here, List.getElem?_append_right (Nat.le_refl _), Nat.sub_self]
  rfl

theorem awaited_step (calm : E.Calm good l m) (hstep : T.step l m = some l') (h : E.Awaited l) :
    E.Awaited l' := by
  cases step_moves hstep with
  | own | miss => exact h
  | call =>
    rw [Awaited, List.forall_mem_append, List.forall_mem_singleton]
    exact ⟨h, fun _ _ => rfl⟩
  | take here | answer here =>
    refine h.change here ?_ rfl
    intro _ hnone
    cases hnone
  | leave here =>
    refine h.change here ?_ rfl
    intro about
    cases about.symm.trans (calm.aside here)

/-- A call about it is made when none is under way. -/
theorem Stage.call {q : Q} (h : E.Stage l) (hE : E.Sound good) (calm : E.Calm good l (.call q))
    (about : E.about q = true) :
    E.Stage ⟨l.server, T.begins l.client q, l.calls ++ [⟨q, none, .waiting⟩]⟩ := by
  have hnone : l.calls.filter E.pending = [] := by
    rw [List.filter_eq_nil_iff]
    intro k hk hp
    obtain ⟨ha, ho⟩ := Bool.and_eq_true_iff.mp hp
    cases ho.symm.trans ((calm about).2 k hk ha)
  cases h with
  | settled _ hagrees =>
    refine .asked q (E.shown l.client) ?_ (calm about).1 hagrees ?_
    · simp [hnone, pending, about, Exchange.open]
    · rw [hE.begins, about, if_pos rfl]
  | asked _ _ one | taken _ _ one => cases hnone.symm.trans one

theorem Stage.take {q : Q} {s : S} {p : P} {o : Outcome P} (h : E.Stage l) (hE : E.Sound good)
    (here : l.calls = before ++ ⟨q, none, o⟩ :: after) (served : T.serve l.server q = some (s, p))
    (about : E.about q = true) (awaited : E.Awaited l) :
    E.Stage ⟨s, l.client, before ++ ⟨q, some p, o⟩ :: after⟩ := by
  have hmem : (⟨q, none, o⟩ : Exchange Q P) ∈ l.calls := by simp [here]
  have hp : E.pending ⟨q, none, o⟩ = true :=
    Bool.and_eq_true_iff.mpr ⟨about, awaited _ hmem about rfl⟩
  cases h with
  | settled none => cases hp.symm.trans (not_pending none hmem)
  | asked q' v one mine hagrees entered =>
    obtain ⟨heq, hbefore, hafter⟩ := pending_only hp (here ▸ one)
    cases heq
    refine .taken q p ((pending_change hbefore hafter).trans ?_) ?_
    · simp [pending, about, Exchange.open]
    · rw [entered]
      exact hE.served _ _ _ _ _ about mine served hagrees
  | taken q' p' one => cases (pending_only hp (here ▸ one)).1

theorem Stage.answer {q : Q} {p : P} (h : E.Stage l) (hE : E.Sound good)
    (here : l.calls = before ++ ⟨q, some p, .waiting⟩ :: after) (about : E.about q = true) :
    E.Stage ⟨l.server, T.ends l.client q p, before ++ ⟨q, some p, .answered p⟩ :: after⟩ := by
  have hmem : (⟨q, some p, .waiting⟩ : Exchange Q P) ∈ l.calls := by simp [here]
  have hp : E.pending ⟨q, some p, .waiting⟩ = true := Bool.and_eq_true_iff.mpr ⟨about, rfl⟩
  cases h with
  | settled none => cases hp.symm.trans (not_pending none hmem)
  | asked q' v one => cases (pending_only hp (here ▸ one)).1
  | taken q' p' one hagrees =>
    obtain ⟨heq, hbefore, hafter⟩ := pending_only hp (here ▸ one)
    cases heq
    refine .settled ((pending_change hbefore hafter).trans ?_) ?_
    · simp [pending, Exchange.open]
    · rwa [hE.ends, about, if_pos rfl]

theorem stage_step (hE : E.Sound good) (calm : E.Calm good l m) (hstep : T.step l m = some l')
    (hw : E.Awaited l) (h : E.Stage l) : E.Stage l' := by
  cases step_moves hstep with
  | own hown => exact h.keep rfl rfl (hE.own _ _ _ calm hown)
  | @miss q =>
    have aside : E.about q = false := calm
    refine h.keep rfl ?_ fun _ hv => hv
    rw [hE.begins, aside, if_neg Bool.false_ne_true]
  | @call q =>
    cases about : E.about q with
    | true => exact h.call hE calm about
    | false =>
      refine h.keep ?_ ?_ fun _ hv => hv
      · simp [pending, about]
      · rw [hE.begins, about, if_neg Bool.false_ne_true]
  | @take before after q o s p here served =>
    cases about : E.about q with
    | true => exact h.take hE here served about hw
    | false =>
      refine h.keep ?_ rfl (hE.aside _ _ _ _ about served)
      rw [here]
      exact pending_aside about about
  | @answer before after q p here =>
    cases about : E.about q with
    | true => exact h.answer hE here about
    | false =>
      refine h.keep ?_ ?_ fun _ hv => hv
      · rw [here]
        exact pending_aside about about
      · rw [hE.ends, about, if_neg Bool.false_ne_true]
  | leave here =>
    refine h.keep ?_ rfl fun _ hv => hv
    rw [here]
    exact pending_aside (calm.aside here) (calm.aside here)

/-- Where the calls about something follow one another, client and server agree whenever no such
call is under way. -/
theorem Sound.settled (hE : E.Sound good) (hl : T.line.Reach (E.Calm good) l)
    (still : ∀ k ∈ l.calls, E.about k.request = true → k.open = false) :
    E.agrees (E.held l.server) (E.shown l.client) := by
  have hstage : E.Awaited l ∧ E.Stage l := by
    refine hl.invariant (P := fun l => E.Awaited l ∧ E.Stage l) ⟨?_, .settled rfl hE.start⟩ ?_
    · exact List.forall_mem_nil _
    · exact fun l m l' calm hstep h =>
        ⟨awaited_step calm hstep h.1, stage_step hE calm hstep h.1 h.2⟩
  have hnone {k₀ : Exchange Q P} (one : l.calls.filter E.pending = [k₀]) : False := by
    have hmem : k₀ ∈ l.calls.filter E.pending := by simp [one]
    obtain ⟨hk, hp⟩ := List.mem_filter.mp hmem
    obtain ⟨about, hopen⟩ := Bool.and_eq_true_iff.mp hp
    rw [still k₀ hk about] at hopen
    cases hopen
  cases hstage.2 with
  | settled _ hagrees => exact hagrees
  | asked _ _ one | taken _ _ one => exact (hnone one).elim

end Entry

end Service

end LibiFleet
