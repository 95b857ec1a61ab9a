import LibiFleet.Document
import Mathlib.Data.List.Infix
import Mathlib.Data.Rat.Init
import Mathlib.Tactic.NormNum

/-!
# The battery parameters of the auction

The console keeps three numbers in a YAML file that the fleet loads when it starts. What
`api_params_set` writes, `_read_algo_params` reads; it is to fall back on the defaults where the
file is missing or broken.
-/

namespace LibiFleet

/-- A float, with one zero for both signs. -/
inductive PyFloat
  | nan
  | inf (negative : Bool)
  | finite (value : ℚ)
  deriving DecidableEq

inductive Leaf
  | null
  | bool (value : Bool)
  | int (value : Int)
  | float (value : PyFloat)
  | text (value : String)
  | bytes (value : List UInt8)
  | stamp (iso : String)
  deriving DecidableEq

/-- A value of `yaml.safe_load` or of a request. A set is a sequence here: nothing below tells the
two apart. -/
abbrev PyValue := Document Leaf

/-- What is raised; `yamlError` is for everything that `yaml.safe_load` raises. -/
inductive Raised
  | yamlError
  | attributeError
  | keyError
  | overflowError
  | typeError
  | valueError

/-- `float` of an integer, of a text and of bytes; `none` where it raises. -/
structure Floats where
  ofInt : Int → Option PyFloat
  ofText : String → Option PyFloat
  ofBytes : List UInt8 → Option PyFloat

namespace Document

/-- `float(d)`. -/
def float (read : Floats) : PyValue → Except Raised PyFloat
  | .scalar (.bool b) => .ok (.finite (if b then 1 else 0))
  | .scalar (.int n) => (read.ofInt n).elim (.error .overflowError) .ok
  | .scalar (.float x) => .ok x
  | .scalar (.text s) => (read.ofText s).elim (.error .valueError) .ok
  | .scalar (.bytes s) => (read.ofBytes s).elim (.error .valueError) .ok
  | _ => .error .typeError

def truthy : PyValue → Bool
  | .scalar .null => false
  | .scalar (.bool b) => b
  | .scalar (.int n) => n != 0
  | .scalar (.float x) => x != .finite 0
  | .scalar (.text s) => s != ""
  | .scalar (.bytes s) => !s.isEmpty
  | .scalar (.stamp _) => true
  | .seq items => !items.isEmpty
  | .map entries => !entries.isEmpty

/-- `d or {}`, where `none` is `None` as well. -/
def orEmpty : Option PyValue → PyValue
  | some d => if d.truthy then d else .map []
  | none => .map []

/-- `d.get(key)`. -/
def get (key : String) : PyValue → Except Raised (Option PyValue)
  | .map m => .ok (m.lookup (.text key))
  | _ => .error .attributeError

def isText (key : String) : PyValue → Bool
  | .scalar (.text s) => s == key
  | _ => false

/-- `key in d`: in a text it is a part of the text that is looked for. -/
def contains (key : String) : PyValue → Except Raised Bool
  | .map m => .ok (m.lookup (.text key)).isSome
  | .seq items => .ok (items.any (isText key))
  | .scalar (.text s) => .ok (decide (key.toList <:+: s.toList))
  | .scalar _ => .error .typeError

/-- `d[key]`. -/
def subscript (key : String) : PyValue → Except Raised PyValue
  | .map m => (m.lookup (.text key)).elim (.error .keyError) .ok
  | _ => .error .typeError

end Document

/-- An entry of `ALGO_SPEC`, without its label. The bounds are floats with nothing after the
point. -/
structure ParamSpec where
  key : String
  default : ℚ
  lo : Nat
  hi : Nat

def algoSpec : List ParamSpec :=
  [⟨"battery_drain_per_m", 1, 0, 100⟩, ⟨"battery_drain_per_act", 1 / 2, 0, 100⟩,
    ⟨"battery_reserve_pct", 15, 0, 100⟩]

abbrev Params := List (String × PyFloat)

def defaults : Params := algoSpec.map fun spec => (spec.key, .finite spec.default)

/-- The file at `ALGO_PARAMS`, as far as `yaml.safe_load` gets with it. -/
inductive AlgoFile
  | missing
  | unparsable
  | value (doc : PyValue)

/-- The body of the loop of `_read_algo_params`. -/
def readParam (read : Floats) (ros : PyValue) (vals : Params) (spec : ParamSpec) :
    Except Raised Params := do
  if ← ros.contains spec.key then
    let v ← ros.subscript spec.key
    return put spec.key (← v.float read) vals
  else return vals

/-- `_read_algo_params`, which catches `FileNotFoundError` and nothing else. -/
def readAlgoParams (read : Floats) : AlgoFile → Except Raised Params
  | .missing => .ok defaults
  | .unparsable => .error .yamlError
  | .value doc => do
    let ns ← (Document.orEmpty (some doc)).get "/**"
    let ros ← (Document.orEmpty ns).get "ros__parameters"
    algoSpec.foldlM (readParam read (ros.getD (.map []))) defaults

/-- `lo <= v <= hi`, which no NaN passes. -/
def ParamSpec.inRange (spec : ParamSpec) : PyFloat → Bool
  | .finite x => decide (spec.lo ≤ x ∧ x ≤ spec.hi)
  | _ => false

/-- The answers of `api_params_set`. -/
inductive ParamsResponse
  | stored (params : Params)
  | refused (reason : String)

/-- The loop of `api_params_set` over the rest of the table. -/
def checkParams (read : Floats) (p : List (String × PyValue)) :
    List ParamSpec → Params → Except Raised ParamsResponse
  | [], out => .ok (.stored out)
  | spec :: specs, out =>
    match p.lookup spec.key with
    | none => .ok (.refused s!"missing:{spec.key}")
    | some v =>
      match v.float read with
      | .error .typeError => .ok (.refused s!"not_number:{spec.key}")
      | .error .valueError => .ok (.refused s!"not_number:{spec.key}")
      | .error e => .error e
      | .ok v =>
        if spec.inRange v then checkParams read p specs (put spec.key v out)
        else .ok (.refused s!"out_of_range:{spec.key} ({spec.lo}.0~{spec.hi}.0)")

/-- `out`, as the value of a document. -/
def rosDocument (out : Params) : PyValue :=
  .map (out.map fun e => (.text e.1, .scalar (.float e.2)))

/-- The document that is dumped. -/
def paramsDocument (out : Params) : PyValue :=
  .map [(.text "/**", .map [(.text "ros__parameters", rosDocument out)])]

/-- `api_params_set`, and the file after it. `dump` is what the file holds once a document has been
dumped to it. -/
def apiParamsSet (read : Floats) (dump : PyValue → AlgoFile) (p : List (String × PyValue))
    (file : AlgoFile) : Except Raised ParamsResponse × AlgoFile :=
  match checkParams read p algoSpec [] with
  | .ok (.stored out) => (.ok (.stored out), dump (paramsDocument out))
  | answer => (answer, file)

namespace Document

/-- What `float` makes of the value under `key`, if there is one that it accepts. -/
def number (read : Floats) (key : String) (d : PyValue) : Option PyFloat :=
  (d.field (.text key)).bind fun v => (v.float read).toOption

/-- A mapping, or what `or {}` makes one. -/
def opens : PyValue → Bool
  | .map _ => true
  | d => !d.truthy

/-- `key in d` comes through, and `float(d[key])` if the key is there. -/
def Legible (read : Floats) (key : String) : PyValue → Prop
  | .map m => ∀ v, m.lookup (.text key) = some v → ∃ x, v.float read = .ok x
  | .seq items => items.any (isText key) = false
  | .scalar (.text s) => ¬ key.toList <:+: s.toList
  | .scalar _ => False

end Document

namespace AlgoFile

/-- What is under `/**` and `ros__parameters`. -/
def rosParameters : AlgoFile → Option PyValue
  | .value doc => doc.follow [.text "/**", .text "ros__parameters"]
  | _ => none

/-- The number in the file where `float` accepts it, and else the default. -/
def expected (read : Floats) (file : AlgoFile) (spec : ParamSpec) : PyFloat :=
  (file.rosParameters.bind (Document.number read spec.key)).getD (.finite spec.default)

/-- Neither the file nor the two sections nor the entries under them are broken. -/
def Readable (read : Floats) : AlgoFile → Prop
  | .missing => True
  | .unparsable => False
  | .value doc => doc.opens ∧ ∀ ns, doc.field (.text "/**") = some ns →
      ns.opens ∧ ∀ ros, ns.field (.text "ros__parameters") = some ros →
        ∀ spec ∈ algoSpec, ros.Legible read spec.key

end AlgoFile

/-- What the request has for an entry, if `float` accepts it. -/
def requested (read : Floats) (p : List (String × PyValue)) (spec : ParamSpec) : Option PyFloat :=
  (p.lookup spec.key).bind fun v => (v.float read).toOption

/-- PyYAML reads back the parameters that it has dumped, as long as they are finite. -/
def Dumps (dump : PyValue → AlgoFile) : Prop :=
  ∀ out : Params, (∀ e ∈ out, ∃ x, e.2 = .finite x) →
    dump (paramsDocument out) = .value (paramsDocument out)

/-- The file is read as the docstring promises. -/
def ReadsBack (read : Floats) (file : AlgoFile) : Prop :=
  readAlgoParams read file = .ok (algoSpec.map fun spec => (spec.key, file.expected read spec))

/-! ## Reading, step by step -/

section Reading

variable {read : Floats} {d ros : PyValue} {key : String}

/-- A sequence comes through if each of its steps does. -/
theorem bind_eq_ok {ε α β : Type} {x : Except ε α} {f : α → Except ε β} {b : β} :
    (x >>= f) = .ok b ↔ ∃ a, x = .ok a ∧ f a = .ok b := by
  cases x <;> simp [bind, Except.bind]

theorem pure_eq_ok {ε α : Type} {a b : α} : (pure a : Except ε α) = .ok b ↔ b = a := by
  simp [pure, Except.pure, eq_comm]

theorem get_orEmpty {r : Option PyValue} :
    (Document.orEmpty (some d)).get key = .ok r ↔ d.opens ∧ r = d.field (.text key) := by
  rw [Document.orEmpty]
  split
  · rename_i h
    cases d with
    | map m => simp [Document.get, Document.opens, Document.field, eq_comm]
    | seq | scalar => simp [Document.get, Document.opens, h]
  · rename_i h
    cases d with
    | map m =>
      obtain rfl : m = [] := by simpa [Document.truthy] using h
      simp [Document.get, Document.opens, Document.field, eq_comm]
    | seq | scalar => simp [Document.get, Document.opens, Document.field, h, eq_comm]

theorem readParam_eq_ok {spec : ParamSpec} {vals vals' : Params} :
    readParam read ros vals spec = .ok vals' ↔ ros.Legible read spec.key ∧
      vals' = (ros.number read spec.key).elim vals fun x => put spec.key x vals := by
  cases ros with
  | map m =>
    cases hv : m.lookup (.text spec.key) with
    | none =>
      simp [readParam, Document.contains, bind_eq_ok, pure_eq_ok, Document.Legible,
        Document.number, Document.field, hv]
    | some v =>
      have hbody : readParam read (.map m) vals spec =
          (v.float read).bind fun x => .ok (put spec.key x vals) := by
        simp [readParam, Document.contains, Document.subscript, hv, bind, Except.bind, pure,
          Except.pure]
      cases hx : v.float read <;>
        simp [hbody, Except.bind, Document.Legible, Document.number, Document.field, hv, hx,
          Except.toOption, eq_comm]
  | seq items =>
    cases hi : items.any (Document.isText spec.key) <;>
      simp [readParam, Document.contains, Document.subscript, bind_eq_ok, pure_eq_ok,
        Document.Legible, Document.number, Document.field, hi]
  | scalar a =>
    cases a with
    | text s =>
      by_cases hs : spec.key.toList <:+: s.toList <;>
        simp [readParam, Document.contains, Document.subscript, bind_eq_ok, pure_eq_ok,
          Document.Legible, Document.number, Document.field, hs]
    | null | bool | int | float | bytes | stamp =>
      simp [readParam, Document.contains, bind_eq_ok, Document.Legible]

/-- The key of a round is new, and so are the keys of the rounds after it. -/
theorem nodup_round {done : Params} {spec : ParamSpec} {specs : List ParamSpec}
    (h : (done.map (·.1) ++ (spec :: specs).map (·.key)).Nodup) :
    spec.key ∉ done.map (·.1) ∧
      ∀ x : PyFloat, ((done ++ [(spec.key, x)]).map (·.1) ++ specs.map (·.key)).Nodup := by
  constructor
  · intro hmem
    exact (List.nodup_append.mp h).2.2 _ hmem _ List.mem_cons_self rfl
  · intro x
    simpa using h

/-- The loop comes through if each of its rounds does, and then the defaults that it has not
reached yet make way for what it finds. -/
theorem readParams_eq_ok (specs : List ParamSpec) : ∀ (done : Params) {vals : Params},
    (done.map (·.1) ++ specs.map (·.key)).Nodup →
    (specs.foldlM (readParam read ros)
        (done ++ specs.map fun spec => (spec.key, .finite spec.default)) = .ok vals ↔
      (∀ spec ∈ specs, ros.Legible read spec.key) ∧
        vals = done ++ specs.map fun spec =>
          (spec.key, (ros.number read spec.key).getD (.finite spec.default))) := by
  induction specs with
  | nil =>
    intro done vals _
    simp [pure_eq_ok]
  | cons spec specs ih =>
    intro done vals hk
    obtain ⟨hnew, hround⟩ := nodup_round hk
    -- One round leaves the number for this entry, and the rest of the list as it was.
    have hvals : ((ros.number read spec.key).elim
        (done ++ (spec :: specs).map fun spec => (spec.key, .finite spec.default))
        fun x => put spec.key x
          (done ++ (spec :: specs).map fun spec => (spec.key, .finite spec.default))) =
        (done ++ [(spec.key, (ros.number read spec.key).getD (.finite spec.default))]) ++
          specs.map fun spec => (spec.key, .finite spec.default) := by
      cases ros.number read spec.key with
      | none => simp
      | some x => simp [put_append hnew, put]
    rw [List.foldlM_cons, bind_eq_ok]
    simp only [readParam_eq_ok, List.forall_mem_cons]
    constructor
    · rintro ⟨_, ⟨hl, rfl⟩, h⟩
      rw [hvals] at h
      obtain ⟨hls, rfl⟩ := (ih _ (hround _)).mp h
      exact ⟨⟨hl, hls⟩, by simp⟩
    · rintro ⟨⟨hl, hls⟩, rfl⟩
      refine ⟨_, ⟨hl, rfl⟩, ?_⟩
      rw [hvals]
      exact (ih _ (hround _)).mpr ⟨hls, by simp⟩

theorem algoSpec_nodup : (algoSpec.map (·.key)).Nodup := by
  decide

/-- The loop over the whole table, with nothing but the defaults where there is no section. -/
theorem readSection_eq_ok {found : Option PyValue} {vals : Params} :
    algoSpec.foldlM (readParam read (found.getD (.map []))) defaults = .ok vals ↔
      (∀ ros, found = some ros → ∀ spec ∈ algoSpec, ros.Legible read spec.key) ∧
        vals = algoSpec.map fun spec =>
          (spec.key, (found.bind (Document.number read spec.key)).getD (.finite spec.default)) := by
  refine (readParams_eq_ok algoSpec [] algoSpec_nodup).trans ?_
  cases found with
  | none => simp [Document.Legible, Document.number, Document.field]
  | some ros => simp

theorem readAlgoParams_eq_ok {file : AlgoFile} {vals : Params} :
    readAlgoParams read file = .ok vals ↔ file.Readable read ∧
      vals = algoSpec.map fun spec => (spec.key, file.expected read spec) := by
  cases file with
  | missing =>
    simp [readAlgoParams, AlgoFile.Readable, AlgoFile.expected, AlgoFile.rosParameters, defaults,
      eq_comm]
  | unparsable => simp [readAlgoParams, AlgoFile.Readable]
  | value doc =>
    simp only [readAlgoParams, bind_eq_ok, get_orEmpty, AlgoFile.Readable, AlgoFile.expected,
      AlgoFile.rosParameters, Document.follow]
    cases hns : doc.field (.text "/**") with
    | none =>
      constructor
      · rintro ⟨_, ⟨hd, rfl⟩, ros, hros, h⟩
        obtain rfl : none = ros := Except.ok.inj hros
        exact ⟨⟨hd, by simp⟩, (readSection_eq_ok.mp h).2⟩
      · rintro ⟨⟨hd, -⟩, hv⟩
        exact ⟨_, ⟨hd, rfl⟩, none, rfl, readSection_eq_ok.mpr ⟨by simp, hv⟩⟩
    | some ns =>
      constructor
      · rintro ⟨_, ⟨hd, rfl⟩, ros, hros, h⟩
        obtain ⟨hn, rfl⟩ := get_orEmpty.mp hros
        obtain ⟨hl, hv⟩ := readSection_eq_ok.mp h
        refine ⟨⟨hd, ?_⟩, ?_⟩
        · intro ns' hns'
          obtain rfl := Option.some.inj hns'
          exact ⟨hn, hl⟩
        · simpa using hv
      · rintro ⟨⟨hd, hs⟩, hv⟩
        obtain ⟨hn, hl⟩ := hs ns rfl
        refine ⟨_, ⟨hd, rfl⟩, _, get_orEmpty.mpr ⟨hn, rfl⟩, readSection_eq_ok.mpr ⟨hl, ?_⟩⟩
        simpa using hv

theorem readsBack_iff (file : AlgoFile) : ReadsBack read file ↔ file.Readable read := by
  rw [ReadsBack, readAlgoParams_eq_ok]
  exact and_iff_left rfl

end Reading

section Writing

variable {read : Floats} {p : List (String × PyValue)} {out : Params}

theorem finite_of_inRange {spec : ParamSpec} {v : PyFloat} (h : spec.inRange v) :
    ∃ x, v = .finite x := by
  cases v with
  | nan | inf => cases h
  | finite x => exact ⟨x, rfl⟩

/-- What is stored has passed every check, and the entries stand in the order of the table. -/
theorem checkParams_eq_stored (specs : List ParamSpec) : ∀ (done : Params) {out : Params},
    (done.map (·.1) ++ specs.map (·.key)).Nodup →
    (checkParams read p specs done = .ok (.stored out) ↔
      (∀ spec ∈ specs, ∃ x, requested read p spec = some x ∧ spec.inRange x) ∧
        out = done ++ specs.map fun spec =>
          (spec.key, (requested read p spec).getD (.finite spec.default))) := by
  induction specs with
  | nil =>
    intro done out _
    rw [checkParams]
    simpa using eq_comm
  | cons spec specs ih =>
    intro done out hk
    rw [checkParams, List.forall_mem_cons, List.map_cons]
    cases hv : p.lookup spec.key with
    | none => simp [requested, hv]
    | some v =>
      cases hx : v.float read with
      | error e => cases e <;> simp [requested, hv, hx, Except.toOption]
      | ok x =>
        have hreq : requested read p spec = some x := by
          rw [requested, hv, Option.bind_some, hx, Except.toOption]
        by_cases hr : spec.inRange x
        · obtain ⟨hnew, hround⟩ := nodup_round hk
          simp only [hx, hr, if_true, put_new hnew, hreq]
          rw [ih _ (hround x)]
          simp [hr]
        · simp [hx, hreq, hr]

/-- Every refusal names the entry that has not passed. -/
theorem checkParams_refused (specs : List ParamSpec) : ∀ {done : Params} {reason : String},
    checkParams read p specs done = .ok (.refused reason) →
    ∃ spec ∈ specs, reason = s!"missing:{spec.key}" ∨ reason = s!"not_number:{spec.key}" ∨
      reason = s!"out_of_range:{spec.key} ({spec.lo}.0~{spec.hi}.0)" := by
  induction specs with
  | nil =>
    intro done reason h
    cases h
  | cons spec specs ih =>
    intro done reason h
    rw [checkParams] at h
    cases hv : p.lookup spec.key with
    | none =>
      simp only [hv, Except.ok.injEq, ParamsResponse.refused.injEq] at h
      exact ⟨spec, List.mem_cons_self, .inl h.symm⟩
    | some v =>
      cases hx : v.float read with
      | error e =>
        cases e with
        | typeError | valueError =>
          simp only [hv, hx, Except.ok.injEq, ParamsResponse.refused.injEq] at h
          exact ⟨spec, List.mem_cons_self, .inr (.inl h.symm)⟩
        | yamlError | attributeError | keyError | overflowError => simp [hv, hx] at h
      | ok x =>
        by_cases hr : spec.inRange x
        · simp only [hv, hx, hr, if_true] at h
          obtain ⟨spec', hmem, hreason⟩ := ih h
          exact ⟨spec', List.mem_cons_of_mem _ hmem, hreason⟩
        · simp only [hv, hx, hr, if_false, Except.ok.injEq, ParamsResponse.refused.injEq,
            Bool.false_eq_true] at h
          exact ⟨spec, List.mem_cons_self, .inr (.inr h.symm)⟩

/-- What a dumped document has under a key. -/
theorem field_rosDocument (out : Params) (key : String) :
    (rosDocument out).field (.text key) = (out.lookup key).map fun x => .scalar (.float x) :=
  lookup_map (fun _ _ h => Leaf.text.inj h) (fun x => (.scalar (.float x) : PyValue)) out key

theorem number_rosDocument (out : Params) (key : String) :
    (rosDocument out).number read key = out.lookup key := by
  rw [Document.number, field_rosDocument]
  cases out.lookup key <;> rfl

theorem legible_rosDocument (out : Params) (key : String) :
    (rosDocument out).Legible read key := by
  intro v hv
  obtain ⟨x, -, rfl⟩ := Option.map_eq_some_iff.mp ((field_rosDocument out key).symm.trans hv)
  exact ⟨x, rfl⟩

theorem rosParameters_paramsDocument (out : Params) :
    (AlgoFile.value (paramsDocument out)).rosParameters = some (rosDocument out) := by
  rfl

theorem readable_paramsDocument (out : Params) :
    (AlgoFile.value (paramsDocument out)).Readable read := by
  refine ⟨rfl, ?_⟩
  intro ns hns
  obtain rfl := Option.some.inj hns
  refine ⟨rfl, ?_⟩
  intro ros hros spec _
  obtain rfl := Option.some.inj hros
  exact legible_rosDocument out spec.key

/-- A list with an entry for each of the table's. -/
theorem lookup_table {V : Type} (value : ParamSpec → V) {spec : ParamSpec} (h : spec ∈ algoSpec) :
    (algoSpec.map fun spec => (spec.key, value spec)).lookup spec.key = some (value spec) := by
  have hkeys : ((algoSpec.map fun spec => (spec.key, value spec)).map (·.1)).Nodup := by
    rw [List.map_map]
    exact algoSpec_nodup
  exact lookup_of_mem hkeys (List.mem_map_of_mem (f := fun spec => (spec.key, value spec)) h)

/-- Values for the whole table are read as they have been dumped. -/
theorem readAlgoParams_paramsDocument (value : ParamSpec → PyFloat) :
    readAlgoParams read (.value (paramsDocument (algoSpec.map fun spec =>
      (spec.key, value spec)))) = .ok (algoSpec.map fun spec => (spec.key, value spec)) := by
  refine readAlgoParams_eq_ok.mpr ⟨readable_paramsDocument _, List.map_congr_left ?_⟩
  intro spec hspec
  rw [AlgoFile.expected, rosParameters_paramsDocument, Option.bind_some, number_rosDocument,
    lookup_table value hspec, Option.getD_some]

variable {dump : PyValue → AlgoFile} {file : AlgoFile}

theorem apiParamsSet_of_stored (h : checkParams read p algoSpec [] = .ok (.stored out)) :
    apiParamsSet read dump p file = (.ok (.stored out), dump (paramsDocument out)) := by
  rw [apiParamsSet, h]

/-- What is not stored leaves the file alone: a refusal, and an exception as well. -/
theorem apiParamsSet_of_not_stored (h : ∀ out, checkParams read p algoSpec [] ≠ .ok (.stored out)) :
    apiParamsSet read dump p file = (checkParams read p algoSpec [], file) := by
  rw [apiParamsSet]
  split
  · rename_i out hout
    exact absurd hout (h out)
  · rfl

theorem apiParamsSet_answer :
    (apiParamsSet read dump p file).1 = checkParams read p algoSpec [] := by
  by_cases h : ∃ out, checkParams read p algoSpec [] = .ok (.stored out)
  · obtain ⟨out, h⟩ := h
    rw [apiParamsSet_of_stored h, h]
  · rw [apiParamsSet_of_not_stored (not_exists.mp h)]

/-- Parameters are stored if the request has a number in range for the whole table, and then these
numbers are. -/
theorem apiParamsSet_stored_iff : (apiParamsSet read dump p file).1 = .ok (.stored out) ↔
    (∀ spec ∈ algoSpec, ∃ x, requested read p spec = some x ∧ spec.inRange x) ∧
      out = algoSpec.map fun spec =>
        (spec.key, (requested read p spec).getD (.finite spec.default)) := by
  rw [apiParamsSet_answer]
  exact checkParams_eq_stored algoSpec [] algoSpec_nodup

/-- Parameters in range, sent as they are read, are stored as they are sent. -/
theorem stored_of_inRange {value : ParamSpec → PyFloat}
    (h : ∀ spec ∈ algoSpec, spec.inRange (value spec)) :
    (apiParamsSet read dump (algoSpec.map fun spec => (spec.key, .scalar (.float (value spec))))
      file).1 = .ok (.stored (algoSpec.map fun spec => (spec.key, value spec))) := by
  have hreq : ∀ spec ∈ algoSpec, requested read
      (algoSpec.map fun spec => (spec.key, .scalar (.float (value spec)))) spec =
        some (value spec) := by
    intro spec hspec
    rw [requested, lookup_table _ hspec]
    rfl
  refine apiParamsSet_stored_iff.mpr ⟨fun spec hspec => ⟨_, hreq spec hspec, h spec hspec⟩, ?_⟩
  refine List.map_congr_left ?_
  intro spec hspec
  rw [hreq spec hspec, Option.getD_some]

/-- Every default passes its own check. -/
theorem defaults_inRange : ∀ spec ∈ algoSpec, spec.inRange (.finite spec.default) := by
  simp only [algoSpec, List.forall_mem_cons]
  norm_num [ParamSpec.inRange]

/-- What has been stored is in the file. -/
theorem dump_of_stored (dumps : Dumps dump)
    (h : (apiParamsSet read dump p file).1 = .ok (.stored out)) :
    (apiParamsSet read dump p file).2 = .value (paramsDocument out) := by
  obtain ⟨hvalid, rfl⟩ := apiParamsSet_stored_iff.mp h
  rw [apiParamsSet_answer] at h
  rw [apiParamsSet_of_stored h]
  apply dumps
  intro e he
  obtain ⟨spec, hspec, rfl⟩ := List.mem_map.mp he
  obtain ⟨x, hx, hr⟩ := hvalid spec hspec
  obtain ⟨y, rfl⟩ := finite_of_inRange hr
  exact ⟨y, by rw [hx, Option.getD_some]⟩

theorem read_of_stored (dumps : Dumps dump)
    (h : (apiParamsSet read dump p file).1 = .ok (.stored out)) :
    readAlgoParams read (apiParamsSet read dump p file).2 = .ok out := by
  rw [dump_of_stored dumps h]
  obtain ⟨-, rfl⟩ := apiParamsSet_stored_iff.mp h
  exact readAlgoParams_paramsDocument _

theorem file_of_not_stored (h : ∀ out, (apiParamsSet read dump p file).1 ≠ .ok (.stored out)) :
    (apiParamsSet read dump p file).2 = file := by
  simp only [apiParamsSet_answer] at h
  rw [apiParamsSet_of_not_stored h]

end Writing

/-! ## Whole runs -/

/-- The file after the requests. -/
def afterRequests (read : Floats) (dump : PyValue → AlgoFile) (file : AlgoFile)
    (requests : List (List (String × PyValue))) : AlgoFile :=
  requests.foldl (fun file p => (apiParamsSet read dump p file).2) file

section Runs

variable {read : Floats} {dump : PyValue → AlgoFile}

/-- No request breaks a file that can be read. -/
theorem readable_apiParamsSet (dumps : Dumps dump) {file : AlgoFile} (h : file.Readable read)
    (p : List (String × PyValue)) : (apiParamsSet read dump p file).2.Readable read := by
  by_cases hs : ∃ out, (apiParamsSet read dump p file).1 = .ok (.stored out)
  · obtain ⟨out, hs⟩ := hs
    exact (readAlgoParams_eq_ok.mp (read_of_stored dumps hs)).1
  · rw [file_of_not_stored (not_exists.mp hs)]
    exact h

theorem readable_afterRequests (dumps : Dumps dump) (requests : List (List (String × PyValue))) :
    ∀ {file : AlgoFile}, file.Readable read →
      (afterRequests read dump file requests).Readable read := by
  induction requests with
  | nil => exact fun h => h
  | cons p requests ih => exact fun h => ih (readable_apiParamsSet dumps h p)

theorem afterRequests_of_not_stored {requests : List (List (String × PyValue))}
    (h : ∀ p ∈ requests, ∀ out, checkParams read p algoSpec [] ≠ .ok (.stored out)) :
    ∀ file : AlgoFile, afterRequests read dump file requests = file := by
  induction requests with
  | nil => exact fun _ => rfl
  | cons p requests ih =>
    intro file
    rw [List.forall_mem_cons] at h
    rw [afterRequests, List.foldl_cons, apiParamsSet_of_not_stored h.1]
    exact ih h.2 file

/-- The parameters that were stored last are read, whatever was in the file before them and
whatever has been refused since. -/
theorem read_of_last_stored (dumps : Dumps dump) {p : List (String × PyValue)} {out : Params}
    (hp : checkParams read p algoSpec [] = .ok (.stored out))
    {earlier later : List (List (String × PyValue))}
    (hlater : ∀ q ∈ later, ∀ out, checkParams read q algoSpec [] ≠ .ok (.stored out))
    (file : AlgoFile) :
    readAlgoParams read (afterRequests read dump file (earlier ++ p :: later)) = .ok out := by
  have hfile : afterRequests read dump file (earlier ++ p :: later) =
      (apiParamsSet read dump p (afterRequests read dump file earlier)).2 := by
    rw [afterRequests, List.foldl_append, List.foldl_cons]
    exact afterRequests_of_not_stored hlater _
  rw [hfile]
  exact read_of_stored dumps (apiParamsSet_answer.trans hp)

end Runs

/-- The file is read as promised where nothing in it is broken and nowhere else. What has been
stored is read back, and a refusal leaves the file as it is. -/
theorem readAlgoParams_exact (read : Floats) {dump : PyValue → AlgoFile} (dumps : Dumps dump) :
    (∀ file, ReadsBack read file ↔ file.Readable read) ∧
      ∀ p file,
        (∀ out, (apiParamsSet read dump p file).1 = .ok (.stored out) →
          readAlgoParams read (apiParamsSet read dump p file).2 = .ok out) ∧
        ∀ reason, (apiParamsSet read dump p file).1 = .ok (.refused reason) →
          (apiParamsSet read dump p file).2 = file := by
  refine ⟨readsBack_iff, ?_⟩
  intro p file
  refine ⟨fun out h => read_of_stored dumps h, ?_⟩
  intro reason h
  apply file_of_not_stored
  intro out hout
  cases h.symm.trans hout

/-- What `float` makes of small integers, as far as the requests below need it. -/
def smallFloats : Floats := ⟨fun n => some (.finite n), fun _ => none, fun _ => none⟩

/-- A request that is stored. -/
def smallRequest : List (String × PyValue) :=
  [("battery_drain_per_m", .scalar (.int 2)),
    ("battery_drain_per_act", .scalar (.float (.finite (1 / 4)))),
    ("battery_reserve_pct", .scalar (.int 20))]

/-- A request mends a file that could not be read. -/
theorem readAlgoParams_exact_mended :
    readAlgoParams smallFloats (apiParamsSet smallFloats .value smallRequest .unparsable).2 =
      .ok [("battery_drain_per_m", .finite 2), ("battery_drain_per_act", .finite (1 / 4)),
        ("battery_reserve_pct", .finite 20)] := by
  have hstored : (apiParamsSet smallFloats .value smallRequest .unparsable).1 =
      .ok (.stored [("battery_drain_per_m", .finite 2), ("battery_drain_per_act", .finite (1 / 4)),
        ("battery_reserve_pct", .finite 20)]) := by
    refine apiParamsSet_stored_iff.mpr ⟨?_, rfl⟩
    simp only [algoSpec, List.forall_mem_cons]
    refine ⟨⟨.finite 2, rfl, ?_⟩, ⟨.finite (1 / 4), rfl, ?_⟩, ⟨.finite 20, rfl, ?_⟩, ?_⟩
    · norm_num [ParamSpec.inRange]
    · norm_num [ParamSpec.inRange]
    · norm_num [ParamSpec.inRange]
    · simp
  exact ((readAlgoParams_exact smallFloats fun _ _ => rfl).2 _ _).1 _ hstored

/-- An entry that has been left empty in the file. -/
def emptyReserve : AlgoFile :=
  .value (.map [(.text "/**", .map [(.text "ros__parameters",
    .map [(.text "battery_drain_per_m", .scalar (.float (.finite 2))),
      (.text "battery_reserve_pct", .scalar .null)])])])

/-- `float(None)` raises a `TypeError`, which nobody catches. -/
theorem emptyReserve_raises :
    (∀ read : Floats, readAlgoParams read emptyReserve = .error .typeError) ∧
      ∀ read : Floats, ¬ ReadsBack read emptyReserve := by
  have hraises : ∀ read : Floats, readAlgoParams read emptyReserve = .error .typeError := by
    intro read
    rfl
  refine ⟨hraises, ?_⟩
  intro read
  rw [ReadsBack, hraises]
  intro hok
  cases hok

end LibiFleet
