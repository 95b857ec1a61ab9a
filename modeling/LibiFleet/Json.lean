import LibiFleet.Document
import Mathlib.Algebra.Field.Defs
import Mathlib.Data.Nat.Digits.Defs

/-!
# JSON texts

The reader of Python, `json.loads`, and the texts that it is sure to read: one rule for each
kind of value, whatever follows it.
-/

namespace LibiFleet

/-- What stands at the leaves of a JSON value, and under which its members are kept. -/
inductive Atom (F : Type)
  | null
  | bool (b : Bool)
  | int (n : Int)
  | float (x : F)
  | nan
  | infinity (negative : Bool)
  | text (s : String)
  deriving DecidableEq

namespace Json

def isSpace (c : Char) : Bool := c = ' ' || c = '\t' || c = '\n' || c = '\r'

def skip (cs : List Char) : List Char := cs.dropWhile isSpace

/-- The text after `token`, if it starts with that. -/
def after (token cs : List Char) : Option (List Char) :=
  if token <+: cs then some (cs.drop token.length) else none

/-- The character that is meant by a backslash and another. -/
def unescape : Char → Option Char
  | '"' => some '"'
  | '\\' => some '\\'
  | '/' => some '/'
  | 'b' => some '\x08'
  | 'f' => some '\x0c'
  | 'n' => some '\n'
  | 'r' => some '\r'
  | 't' => some '\t'
  | _ => none

def hexDigit (c : Char) : Option Nat :=
  if c.isDigit then some (c.toNat - '0'.toNat)
  else if 'a' ≤ c ∧ c ≤ 'f' then some (c.toNat - 'a'.toNat + 10)
  else if 'A' ≤ c ∧ c ≤ 'F' then some (c.toNat - 'A'.toNat + 10)
  else none

/-- The character that is meant by four digits; `none` where they name no character. -/
def codePoint (a b c d : Char) : Option Char := do
  let n := 4096 * (← hexDigit a) + 256 * (← hexDigit b) + 16 * (← hexDigit c) + (← hexDigit d)
  if n.isValidChar then some (Char.ofNat n) else none

/-- A string after its quote, and what follows it. -/
def scanString : List Char → Option (List Char × List Char)
  | [] => none
  | '"' :: cs => some ([], cs)
  | '\\' :: cs =>
    match cs with
    | 'u' :: a :: b :: c :: d :: cs =>
      (codePoint a b c d).bind fun e => (scanString cs).map fun (s, rest) => (e :: s, rest)
    | c :: cs => (unescape c).bind fun e => (scanString cs).map fun (s, rest) => (e :: s, rest)
    | [] => none
  | c :: cs =>
    if c.toNat < 32 then none else (scanString cs).map fun (s, rest) => (c :: s, rest)

/-- The digits at the start of a text, if there are any. -/
def digits (cs : List Char) : Option (List Char × List Char) :=
  if cs.takeWhile Char.isDigit = [] then none
  else some (cs.takeWhile Char.isDigit, cs.dropWhile Char.isDigit)

/-- A number without its sign: one digit, or several of which the first is not zero. -/
def whole : List Char → Option (List Char × List Char)
  | '0' :: cs => some (['0'], cs)
  | cs => digits cs

/-- The digits after the point, if there are any. -/
def fraction : List Char → Option (List Char × List Char)
  | '.' :: cs => digits cs
  | _ => none

/-- The value of a number with its sign. -/
def signed (negative : Bool) (n : Nat) : Int := if negative then -n else n

def exponentSign : List Char → Bool × List Char
  | '-' :: cs => (true, cs)
  | '+' :: cs => (false, cs)
  | cs => (false, cs)

/-- The exponent, if there is one. -/
def exponent : List Char → Option (Int × List Char)
  | [] => none
  | c :: cs =>
    if c = 'e' ∨ c = 'E' then
      let (negative, cs) := exponentSign cs
      (digits cs).map fun (ds, rest) => (signed negative (Nat.ofDigitChars 10 ds 0), rest)
    else none

variable {F : Type} [Field F]

/-- A number without its sign: an integer, if it has neither fraction nor exponent. -/
def magnitude (negative : Bool) (cs : List Char) : Option (Atom F × List Char) :=
  (whole cs).map fun (ds, rest) =>
    let (frac, rest) := (fraction rest).elim (none, rest) fun (fs, rest) => (some fs, rest)
    let (exp, rest) := (exponent rest).elim (none, rest) fun (e, rest) => (some e, rest)
    if frac.isNone ∧ exp.isNone then (.int (signed negative (Nat.ofDigitChars 10 ds 0)), rest)
    else
      let fs := frac.getD []
      (.float (signed negative (Nat.ofDigitChars 10 (ds ++ fs) 0) *
        ((10 : Nat) : F) ^ (exp.getD 0 - fs.length)), rest)

/-- A value that is neither a string nor in brackets. -/
def scanAtom (cs : List Char) : Option (Atom F × List Char) :=
  (after "null".toList cs).map (.null, ·) <|>
  (after "true".toList cs).map (.bool true, ·) <|>
  (after "false".toList cs).map (.bool false, ·) <|>
  (after ['-'] cs).bind (magnitude true) <|>
  magnitude false cs <|>
  (after "NaN".toList cs).map (.nan, ·) <|>
  (after "Infinity".toList cs).map (.infinity false, ·) <|>
  (after "-Infinity".toList cs).map (.infinity true, ·)

section Sequences

variable {α : Type} (read : List Char → Option (α × List Char)) (close : Char)

/-- The items after one that has been read, with `n` to bound their number. -/
def more : Nat → List Char → Option (List α × List Char)
  | 0, _ => none
  | n + 1, cs =>
    match skip cs with
    | [] => none
    | c :: cs =>
      if c = close then some ([], cs)
      else if c = ',' then do
        let (x, cs) ← read (skip cs)
        let (xs, cs) ← more n cs
        some (x :: xs, cs)
      else none

/-- The items of a sequence, after its opening bracket. -/
def items (cs : List Char) : Option (List α × List Char) :=
  match skip cs with
  | [] => none
  | c :: rest =>
    if c = close then some ([], rest)
    else do
      let (x, rest) ← read (c :: rest)
      let (xs, rest) ← more read close (rest.length + 1) rest
      some (x :: xs, rest)

end Sequences

/-- A key with its value. -/
def member {α : Type} (read : List Char → Option (α × List Char)) (cs : List Char) :
    Option ((String × α) × List Char) := do
  let cs ← after ['"'] cs
  let (key, cs) ← scanString cs
  let cs ← after [':'] (skip cs)
  let (v, cs) ← read (skip cs)
  some ((String.ofList key, v), cs)

variable [DecidableEq F]

/-- The last value under a key counts, in the place of the first. -/
def dict (pairs : List (String × Document (Atom F))) : Document (Atom F) :=
  .map (pairs.foldl (fun m e => put (.text e.1) e.2 m) [])

/-- A value, with `n` to bound its depth. -/
def scan : Nat → List Char → Option (Document (Atom F) × List Char)
  | 0, _ => none
  | n + 1, cs =>
    match cs with
    | '"' :: cs => (scanString cs).map fun (s, rest) => (.scalar (.text (String.ofList s)), rest)
    | '{' :: cs => (items (member (scan n)) '}' cs).map fun (pairs, rest) => (dict pairs, rest)
    | '[' :: cs => (items (scan n) ']' cs).map fun (xs, rest) => (.seq xs, rest)
    | cs => (scanAtom cs).map fun (a, rest) => (.scalar a, rest)

/-- `json.loads`, `none` where it raises an exception. -/
def loads (text : String) : Option (Document (Atom F)) :=
  let cs := text.toList
  (scan (cs.length + 1) (skip cs)).bind fun (d, rest) => if skip rest = [] then some d else none

/-! ## What the reader reads -/

/-- What may follow a value. -/
def Ends (rest : List Char) : Prop := ∀ c ∈ rest.head?, c = ',' ∨ c = ']' ∨ c = '}'

/-- `read` finds `v` in the text, whatever follows, and the text neither starts with white space nor
looks like the end of a sequence. -/
structure Reads {α : Type} (read : List Char → Option (α × List Char)) (text : List Char) (v : α) :
    Prop where
  opens : ∃ c cs, text = c :: cs ∧ isSpace c = false ∧ c ≠ ']' ∧ c ≠ '}'
  reads : ∀ rest, Ends rest → read (text ++ rest) = some (v, rest)

/-- No quote, no backslash and no control character. -/
def Unescaped (s : String) : Prop := ∀ c ∈ s.toList, c ≠ '"' ∧ c ≠ '\\' ∧ 32 ≤ c.toNat

instance : DecidablePred Unescaped := fun s =>
  List.decidableBAll (fun c => c ≠ '"' ∧ c ≠ '\\' ∧ 32 ≤ c.toNat) s.toList

section Rules

variable {α : Type} {read : List Char → Option (α × List Char)} {close c : Char} {n : Nat}
  {s : String} {cs rest : List Char}

omit [Field F] [DecidableEq F] in
theorem scanString_plain (h : ∀ c ∈ cs, c ≠ '"' ∧ c ≠ '\\' ∧ 32 ≤ c.toNat)
    (rest : List Char) :
    scanString (cs ++ '"' :: rest) = some (cs, rest) := by
  induction cs with
  | nil => rfl
  | cons c cs ih =>
    obtain ⟨hquote, hslash, hlow⟩ := h c List.mem_cons_self
    have ih := ih fun d hd => h d (List.mem_cons_of_mem _ hd)
    rw [List.cons_append, scanString]
    · rw [if_neg (by omega), ih, Option.map_some]
    · exact fun hc => hquote hc
    · exact fun hc => hslash hc

omit [Field F] [DecidableEq F] in
theorem Reads.starts {text : List Char} {v : α} (h : Reads read text v) (rest : List Char) :
    skip (text ++ rest) = text ++ rest := by
  obtain ⟨c, cs, rfl, hc, -⟩ := h.opens
  exact List.dropWhile_cons_of_neg (by simp [hc])

theorem reads_text (h : Unescaped s) :
    Reads (scan (F := F) (n + 1)) ('"' :: (s.toList ++ ['"'])) (.scalar (.text s)) where
  opens := ⟨_, _, rfl, by decide, by decide, by decide⟩
  reads := by
    intro rest _
    have hscan := scanString_plain h rest
    simp [scan, hscan]

/-- The digits of a number, without needless zeros before it. -/
structure Numeral (ds : List Char) : Prop where
  nonempty : ds ≠ []
  digits : ∀ c ∈ ds, c.isDigit = true
  trimmed : ds.head? = some '0' → ds = ['0']

omit [Field F] [DecidableEq F] in
theorem digits_append {ds : List Char} (nonempty : ds ≠ []) (hds : ∀ c ∈ ds, c.isDigit = true)
    (hrest : ∀ c ∈ rest.head?, c.isDigit = false) : digits (ds ++ rest) = some (ds, rest) := by
  have hstop : rest.takeWhile Char.isDigit = [] ∧ rest.dropWhile Char.isDigit = rest := by
    cases rest with
    | nil => exact ⟨rfl, rfl⟩
    | cons c rest =>
      have hc := hrest c rfl
      exact ⟨List.takeWhile_cons_of_neg (by simp [hc]), List.dropWhile_cons_of_neg (by simp [hc])⟩
  rw [digits, List.takeWhile_append_of_pos hds, List.dropWhile_append_of_pos hds, hstop.1, hstop.2,
    List.append_nil, if_neg nonempty]

omit [Field F] [DecidableEq F] in
theorem whole_numeral {ds : List Char} (h : Numeral ds)
    (hrest : ∀ c ∈ rest.head?, c.isDigit = false) : whole (ds ++ rest) = some (ds, rest) := by
  by_cases hzero : ds.head? = some '0'
  · rw [h.trimmed hzero]
    rfl
  · obtain ⟨c, cs, rfl⟩ := List.exists_cons_of_ne_nil h.nonempty
    rw [List.cons_append, whole, ← List.cons_append, digits_append h.nonempty h.digits hrest]
    exact fun _ hc => hzero (congrArg some (List.cons.inj hc).1)

theorem Ends.head {rest : List Char} (h : Ends rest) (hc : c ∈ rest.head?) :
    c.isDigit = false ∧ c ≠ '.' ∧ c ≠ 'e' ∧ c ≠ 'E' := by
  rcases h c hc with rfl | rfl | rfl <;> decide

theorem Ends.fraction {rest : List Char} (h : Ends rest) : fraction rest = none := by
  cases rest with
  | nil => rfl
  | cons c rest =>
    rw [Json.fraction]
    exact fun _ hc => (h.head rfl).2.1 (List.cons.inj hc).1

theorem Ends.exponent {rest : List Char} (h : Ends rest) : exponent rest = none := by
  cases rest with
  | nil => rfl
  | cons c rest =>
    have hc := (h.head rfl).2.2
    rw [Json.exponent, if_neg (by simp [hc])]

omit [DecidableEq F] in
theorem magnitude_int {negative : Bool} {ds : List Char} (h : Numeral ds) (hrest : Ends rest) :
    magnitude (F := F) negative (ds ++ rest) =
      some (.int (signed negative (Nat.ofDigitChars 10 ds 0)), rest) := by
  rw [magnitude, whole_numeral h fun c hc => (hrest.head hc).1]
  simp [hrest.fraction, hrest.exponent]

omit [DecidableEq F] in
theorem magnitude_float {negative : Bool} {ds fs : List Char} (h : Numeral ds) (nonempty : fs ≠ [])
    (hfs : ∀ c ∈ fs, c.isDigit = true) (hrest : Ends rest) :
    magnitude (F := F) negative (ds ++ '.' :: fs ++ rest) =
      some (.float (signed negative (Nat.ofDigitChars 10 (ds ++ fs) 0) /
        ((10 : Nat) : F) ^ fs.length), rest) := by
  have hwhole : whole (ds ++ ('.' :: (fs ++ rest))) = some (ds, '.' :: (fs ++ rest)) :=
    whole_numeral h (by simp)
  have hfrac : fraction ('.' :: (fs ++ rest)) = some (fs, rest) :=
    digits_append nonempty hfs fun c hc => (hrest.head hc).1
  have hvalue (x : F) : x * ((10 : Nat) : F) ^ (-(fs.length : Int)) =
      x / ((10 : Nat) : F) ^ fs.length := by
    rw [zpow_neg, zpow_natCast, div_eq_mul_inv]
  rw [magnitude, List.append_assoc, List.cons_append, hwhole, Option.map_some]
  simp only [hfrac, Option.elim_some, hrest.exponent, Option.elim_none, Option.isNone_some,
    Bool.false_eq_true, false_and, if_false, Option.getD_some, Option.getD_none, zero_sub, hvalue]

omit [Field F] [DecidableEq F] in
theorem after_other {t : Char} {token : List Char} (h : c ≠ t) :
    after (t :: token) (c :: cs) = none := by
  rw [after, if_neg]
  intro hpre
  exact h (List.cons_prefix_cons.mp hpre).1.symm

/-- How a number is written. -/
def written (negative : Bool) (cs : List Char) : List Char := if negative then '-' :: cs else cs

omit [DecidableEq F] in
/-- No word starts as a number does. -/
theorem scanAtom_number {a : Atom F × List Char} (hn : c ≠ 'n') (ht : c ≠ 't') (hf : c ≠ 'f')
    (h : ((after ['-'] (c :: cs)).bind (magnitude true) <|> magnitude false (c :: cs)) = some a) :
    scanAtom (c :: cs) = some a := by
  have hnull : after "null".toList (c :: cs) = none := after_other hn
  have htrue : after "true".toList (c :: cs) = none := after_other ht
  have hfalse : after "false".toList (c :: cs) = none := after_other hf
  rw [scanAtom, hnull, htrue, hfalse, Option.map_none, Option.map_none, Option.map_none]
  cases hminus : (after ['-'] (c :: cs)).bind (magnitude (F := F) true) with
  | some b =>
    rw [hminus] at h
    exact h
  | none =>
    have h : magnitude false (c :: cs) = some a := by
      rw [hminus] at h
      exact h
    rw [h]
    rfl

theorem reads_number {negative : Bool} {a : Atom F} (hcs : ∀ c ∈ cs.head?, c.isDigit = true)
    (nonempty : cs ≠ [])
    (hmag : ∀ rest, Ends rest → magnitude negative (cs ++ rest) = some (a, rest)) :
    Reads (scan (n + 1)) (written negative cs) (.scalar a) := by
  obtain ⟨c, cs, rfl⟩ := List.exists_cons_of_ne_nil nonempty
  have hc : c.isDigit = true := hcs c rfl
  have other {d : Char} (hd : d.isDigit = false) : c ≠ d := by
    rintro rfl
    rw [hc] at hd
    cases hd
  have hscan (rest : List Char) (hrest : Ends rest) :
      scanAtom (written negative (c :: cs) ++ rest) = some (a, rest) := by
    have hmag := hmag rest hrest
    rw [List.cons_append] at hmag
    cases negative with
    | true =>
      have hminus : after ['-'] ('-' :: c :: (cs ++ rest)) = some (c :: (cs ++ rest)) := by
        simp [after]
      have h : ((after ['-'] ('-' :: c :: (cs ++ rest))).bind (magnitude true) <|>
          magnitude (F := F) false ('-' :: c :: (cs ++ rest))) = some (a, rest) := by
        rw [hminus, Option.bind_some, hmag]
        rfl
      exact scanAtom_number (by decide) (by decide) (by decide) h
    | false =>
      have hminus : after ['-'] (c :: (cs ++ rest)) = none := after_other (other rfl)
      have h : ((after ['-'] (c :: (cs ++ rest))).bind (magnitude true) <|>
          magnitude (F := F) false (c :: (cs ++ rest))) = some (a, rest) := by
        rw [hminus, Option.bind_none, hmag]
        rfl
      exact scanAtom_number (other rfl) (other rfl) (other rfl) h
  cases negative with
  | true =>
    refine ⟨⟨_, _, rfl, by decide, by decide, by decide⟩, ?_⟩
    intro rest hrest
    exact congrArg (Option.map _) (hscan rest hrest)
  | false =>
    refine ⟨⟨c, cs, rfl, ?_, other rfl, other rfl⟩, ?_⟩
    · simp [isSpace, other (d := ' ') rfl, other (d := '\t') rfl, other (d := '\n') rfl,
        other (d := '\r') rfl]
    · intro rest hrest
      have hread := congrArg (Option.map fun (a, rest) => (Document.scalar a, rest))
        (hscan rest hrest)
      have hopen : scan (F := F) (n + 1) (c :: (cs ++ rest)) =
          (scanAtom (c :: (cs ++ rest))).map fun (a, rest) => (.scalar a, rest) := by
        rw [scan]
        · exact fun _ h => other (d := '"') rfl (List.cons.inj h).1
        · exact fun _ h => other (d := '\x7b') rfl (List.cons.inj h).1
        · exact fun _ h => other (d := '[') rfl (List.cons.inj h).1
      exact hopen.trans hread

theorem reads_int (negative : Bool) {ds : List Char} (h : Numeral ds) :
    Reads (scan (F := F) (n + 1)) (written negative ds)
      (.scalar (.int (signed negative (Nat.ofDigitChars 10 ds 0)))) :=
  reads_number (fun c hc => h.digits c (List.mem_of_mem_head? hc)) h.nonempty
    fun _ => magnitude_int h

theorem reads_float (negative : Bool) {ds fs : List Char} (h : Numeral ds) (nonempty : fs ≠ [])
    (hfs : ∀ c ∈ fs, c.isDigit = true) :
    Reads (scan (F := F) (n + 1)) (written negative (ds ++ '.' :: fs))
      (.scalar (.float (signed negative (Nat.ofDigitChars 10 (ds ++ fs) 0) /
        ((10 : Nat) : F) ^ fs.length))) := by
  obtain ⟨d, ds', hds⟩ := List.exists_cons_of_ne_nil h.nonempty
  refine reads_number ?_ (by simp) fun _ => magnitude_float h nonempty hfs
  intro c hc
  rw [hds] at hc
  obtain rfl := Option.some.inj hc
  exact h.digits d (hds ▸ List.mem_cons_self)

section Joined

variable {β : Type} {text : β → List Char} {value : β → α} {es : List β}

/-- The items with a comma between any two. -/
def joined (texts : List (List Char)) : List Char := [','].intercalate texts

omit [Field F] [DecidableEq F] in
theorem joined_cons (e : β) (es : List β) :
    joined ((e :: es).map text) = text e ++ (es.map fun e => ',' :: text e).flatten := by
  induction es generalizing e with
  | nil => simp [joined]
  | cons e' es ih =>
    have hcons : joined ((e :: e' :: es).map text) =
        text e ++ [','] ++ joined ((e' :: es).map text) := List.intercalate_cons_cons
    rw [hcons, ih e', List.append_assoc]
    rfl

omit [Field F] [DecidableEq F] in
/-- A comma, or the end of the sequence. -/
theorem ends_joined (hclose : close = ']' ∨ close = '}') :
    Ends ((es.map fun e => ',' :: text e).flatten ++ close :: rest) := by
  intro c hc
  cases es with
  | nil =>
    obtain rfl := Option.some.inj hc
    exact .inr hclose
  | cons e es =>
    obtain rfl := Option.some.inj hc
    exact .inl rfl

omit [Field F] [DecidableEq F] in
theorem length_le_joined : es.length ≤ ((es.map fun e => ',' :: text e).flatten).length := by
  induction es with
  | nil => exact Nat.zero_le _
  | cons e es ih =>
    simp only [List.map_cons, List.flatten_cons, List.length_append, List.length_cons]
    omega

omit [Field F] [DecidableEq F] in
theorem more_reads (h : ∀ e ∈ es, Reads read (text e) (value e))
    (hclose : close = ']' ∨ close = '}') (hn : es.length < n) :
    more read close n ((es.map fun e => ',' :: text e).flatten ++ close :: rest) =
      some (es.map value, rest) := by
  induction es generalizing n with
  | nil =>
    have hskip : skip (close :: rest) = close :: rest := by
      rcases hclose with rfl | rfl <;> rfl
    obtain ⟨n, rfl⟩ := Nat.exists_eq_succ_of_ne_zero (Nat.ne_zero_of_lt hn)
    rw [List.map_nil, List.flatten_nil, List.nil_append, more, hskip]
    exact if_pos rfl
  | cons e es ih =>
    obtain ⟨n, rfl⟩ := Nat.exists_eq_succ_of_ne_zero (Nat.ne_zero_of_lt hn)
    have he := h e List.mem_cons_self
    have ih := ih (fun e he => h e (List.mem_cons_of_mem _ he)) (Nat.lt_of_succ_lt_succ hn)
    have hcomma : ',' ≠ close := by
      rcases hclose with rfl | rfl <;> decide
    rw [List.map_cons, List.flatten_cons, List.cons_append, List.cons_append, List.append_assoc,
      more, show skip (',' :: _) = ',' :: _ from rfl]
    dsimp only
    rw [if_neg hcomma, if_pos rfl, he.starts, he.reads _ (ends_joined hclose)]
    simp [ih]

omit [Field F] [DecidableEq F] in
/-- What is written with commas between is read back, item by item. -/
theorem items_reads (h : ∀ e ∈ es, Reads read (text e) (value e))
    (hclose : close = ']' ∨ close = '}') (rest : List Char) :
    items read close (joined (es.map text) ++ close :: rest) = some (es.map value, rest) := by
  cases es with
  | nil =>
    have hskip : skip (joined [] ++ close :: rest) = close :: rest := by
      rcases hclose with rfl | rfl <;> rfl
    rw [List.map_nil, items, hskip]
    exact if_pos rfl
  | cons e es =>
    have he := h e List.mem_cons_self
    have hes := fun d hd => h d (List.mem_cons_of_mem _ hd)
    have hends : Ends ((es.map fun e => ',' :: text e).flatten ++ close :: rest) :=
      ends_joined hclose
    have hlen : es.length ≤ ((es.map fun e => ',' :: text e).flatten).length := length_le_joined
    rw [joined_cons, List.append_assoc]
    generalize htail : (es.map fun e => ',' :: text e).flatten ++ close :: rest = tail at hends ⊢
    have hn : es.length < tail.length + 1 := by
      rw [← htail, List.length_append]
      omega
    have hmore : more read close (tail.length + 1) tail = some (es.map value, rest) := by
      subst htail
      exact more_reads hes hclose hn
    have hread := he.reads tail hends
    obtain ⟨c, cs, htext, -, hbracket, hbrace⟩ := he.opens
    have hother : c ≠ close := by
      rcases hclose with rfl | rfl
      · exact hbracket
      · exact hbrace
    rw [items, he.starts, htext, List.cons_append]
    rw [htext, List.cons_append] at hread
    dsimp only
    rw [if_neg hother, hread]
    simp [hmore]

/-- An array of what is read. -/
theorem reads_seq {value : β → Document (Atom F)}
    (h : ∀ e ∈ es, Reads (scan n) (text e) (value e)) :
    Reads (scan (n + 1)) ('[' :: (joined (es.map text) ++ [']'])) (.seq (es.map value)) where
  opens := ⟨_, _, rfl, by decide, by decide, by decide⟩
  reads := by
    intro rest _
    have hitems := items_reads h (.inl rfl) rest
    simp [scan, hitems]

omit [Field F] [DecidableEq F] in
theorem reads_member {key : String} {v : α} {cs : List Char} (hkey : Unescaped key)
    (h : Reads read cs v) :
    Reads (member read) ('"' :: (key.toList ++ '"' :: ':' :: cs)) (key, v) where
  opens := ⟨_, _, rfl, by decide, by decide, by decide⟩
  reads := by
    intro rest hrest
    have hquote (cs : List Char) : after ['"'] ('"' :: cs) = some cs := by simp [after]
    have hcolon (cs : List Char) : after [':'] (skip (':' :: cs)) = some cs := by
      rw [show skip (':' :: cs) = ':' :: cs from rfl]
      simp [after]
    have hscan := scanString_plain hkey (':' :: (cs ++ rest))
    simp [member, hquote, hscan, hcolon, h.starts, h.reads rest hrest]

omit [Field F] in
/-- Keys that are all different stay as they are. -/
theorem dict_nodup {pairs : List (String × Document (Atom F))} (h : (pairs.map (·.1)).Nodup) :
    dict pairs = .map (pairs.map fun e => (.text e.1, e.2)) := by
  suffices hfold : ∀ m : List (Atom F × Document (Atom F)),
      (∀ e ∈ pairs, .text e.1 ∉ m.map (·.1)) →
      pairs.foldl (fun m e => put (.text e.1) e.2 m) m =
        m ++ pairs.map fun e => (.text e.1, e.2) by
    have hnil := hfold [] (by simp)
    rw [dict, hnil, List.nil_append]
  induction pairs with
  | nil => simp
  | cons e pairs ih =>
    rw [List.map_cons, List.nodup_cons] at h
    intro m hm
    have hnew := put_new (v := e.2) (hm e List.mem_cons_self)
    rw [List.foldl_cons, hnew, ih h.2, List.map_cons, List.append_assoc, List.singleton_append]
    intro d hd hmem
    rw [List.map_append, List.mem_append] at hmem
    rcases hmem with hmem | hmem
    · exact hm d (List.mem_cons_of_mem _ hd) hmem
    · obtain heq := Atom.text.inj (List.mem_singleton.mp hmem)
      exact h.1 (heq ▸ List.mem_map_of_mem hd)

/-- An object whose keys are all different. -/
theorem reads_map {key : β → String} {value : β → Document (Atom F)}
    (nodup : (es.map key).Nodup) (unescaped : ∀ e ∈ es, Unescaped (key e))
    (h : ∀ e ∈ es, Reads (scan n) (text e) (value e)) :
    Reads (scan (n + 1))
      ('\x7b' :: (joined (es.map fun e => '"' :: ((key e).toList ++ '"' :: ':' :: text e)) ++
        ['\x7d']))
      (.map (es.map fun e => (.text (key e), value e))) where
  opens := ⟨_, _, rfl, by decide, by decide, by decide⟩
  reads := by
    intro rest _
    have hmembers := fun e he => reads_member (unescaped e he) (h e he)
    have hitems := items_reads hmembers (.inr rfl) rest
    have hkeys : ((es.map fun e => (key e, value e)).map (·.1)).Nodup := by
      rwa [List.map_map]
    have hdict := dict_nodup hkeys
    rw [List.map_map] at hdict
    simp [scan, hitems, hdict]

end Joined

/-- A text that is one value. -/
theorem loads_eq {text : String} {d : Document (Atom F)}
    (h : Reads (scan (text.toList.length + 1)) text.toList d) : loads text = some d := by
  have hstarts := h.starts []
  have hreads := h.reads [] (by simp [Ends])
  rw [List.append_nil] at hstarts hreads
  rw [loads]
  dsimp only
  rw [hstarts, hreads, Option.bind_some]
  exact if_pos rfl

end Rules

end Json

end LibiFleet
