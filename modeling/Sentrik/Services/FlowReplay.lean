import Sentrik.Checks.Declarative
import Sentrik.Library.Placeholder
import Sentrik.Library.Regex
import Sentrik.Services.Applicability

/-!
# Flows of several steps, and their replay

The check of business flows executes the steps of a flow in order. A step fills the variables read so far into
its path, sends one request, and reads variables from the response; a status that the step does not expect, or
a variable that is not there, ends the flow without a finding. What was read last as the variable of the
invariant is compared with its maximum.

The finding's recipe names the flow and the origin, and the validator executes the flow once more, with a loop
of its own. `confirms_iff` compares the two on one and the same sequence of answers, for every target and
whatever the answers are: the validator sends the check's requests in the check's order, and it confirms the
finding unless one of three things happens in which the loops differ.

* A body that variables are read from is not a document. The check falls back on a pattern (`_extract`), the
  validator gives up.
* A body that no variable is read from raises when it is decoded. Only the validator decodes it.
* The number is not a number. The check asks for `<=` and the validator for `>`.
-/

namespace Sentrik

open Interaction

/-- `x <= bound` -/
def PyFloat.le : PyFloat → ℚ → Bool
  | nan, _ => false
  | infinity negative, _ => negative
  | finite value, bound => value ≤ bound

/-- The two comparisons differ on what is not a number. -/
theorem PyFloat.gt_iff_of_not_le {x : PyFloat} {bound : ℚ} (h : x.le bound = false) :
    x.gt bound = true ↔ x ≠ .nan := by
  cases x with
  | nan => exact iff_of_false Bool.false_ne_true (not_not.2 rfl)
  | infinity negative =>
    obtain rfl : negative = false := h
    exact iff_of_true rfl nofun
  | finite value => exact iff_of_true (decide_eq_true (not_le.1 (of_decide_eq_false h))) nofun

section

variable [u : UnicodeTables] [lib : StandardLibrary]

namespace Checks.BusinessFlowCheck

/-! ### The check -/

/-- The flows with the places they start at. -/
def anchored : List (Checks.FlowDefinition × Sentrik.FlowDefinition) := Checks.FLOWS.zip Sentrik.FLOWS

/-- The template of an endpoint, or else the path of its URL. -/
def pathOf (endpoint : EndpointView) : Except Raised Text :=
  if endpoint.path_template.isEmpty then
    ((Url.urlsplit endpoint.url).map (·.path)).mapError fun _ ↦ .ValueError
  else .ok endpoint.path_template

/-- The flow that starts at an endpoint. -/
def flowFor (endpoint : EndpointView) : Except Raised (Option Sentrik.FlowDefinition) := do
  let path ← pathOf endpoint
  return (anchored.find? fun flow ↦
    u.upper endpoint.method == flow.1.anchor_method && endsAt flow.1.anchor_suffix path).map Prod.snd

def _origin (url : Text) : Except Raised Text := do
  let parts ← (Url.urlsplit url).mapError fun _ ↦ .ValueError
  return parts.scheme ++ "://".toList ++ parts.netloc

/-- `"key"\s*:\s*"?([^",}]+)` -/
def keyPattern (key : Text) : Regex := .all [
  (('"' :: key) ++ ['"']).foldr (fun c r ↦ .seq (.char (· == c)) r) .empty,
  .many u.isSpace true, .char (· == ':'), .many u.isSpace true, .alt (.char (· == '"')) .empty,
  .group (.plus (fun c ↦ c ∉ ['"', ',', '}']) true)]

/-- The value of a key of the body, or what looks like one if the body is not a document. -/
def _extract (body key : Text) : Except Raised (Option Json) :=
  match lib.loads body with
  | .error .ValueError | .error .TypeError => .ok (((keyPattern key).search body).map .str)
  | .error exc => .error exc
  | .ok (.obj fields) => .ok (Dict.get? fields key)
  | .ok _ => .ok none

/-- Read the variables of a step, or give up. -/
def readVariables (flow : Sentrik.FlowDefinition) (body : Text) :
    List (Text × Text) → List (Text × Text) → Option Json →
      Except Raised (Option (List (Text × Text) × Option Json))
  | [], vars, observed => .ok (some (vars, observed))
  | (var, key) :: rest, vars, observed => do
    match ← _extract body key with
    | none | some .null => return none
    | some value =>
      readVariables flow body rest (vars.filter (·.1 ≠ var) ++ [(var, value.toText)])
        (if var = flow.invariant_var then some value else observed)

/-- The call of a step. -/
def stepCall (step : FlowStep) (url : Json) : Query :=
  if u.upper step.method = "GET".toList then
    { url, params := if step.params.isEmpty then none else some step.params }
  else
    { method := "POST".toList, url
      json := if step.json_body.isEmpty then none else some step.json_body }

/-- Execute the steps that are left; what was observed last, unless the flow could not be completed. -/
def runSteps (flow : Sentrik.FlowDefinition) (origin : Text) :
    List FlowStep → List (Text × Text) → Option Json → Program (Option (Option Json))
  | [], _, observed => return some observed
  | step :: rest, vars, observed => do
    let path ← MonadExcept.ofExcept (if vars = [] then .ok step.path else lib.format step.path vars)
    let resp ← request (stepCall step (.str (origin ++ path)))
    if resp.status_code ∉ step.expect_status then return none
    else
      match ← MonadExcept.ofExcept (readVariables flow resp.text step.extract vars observed) with
      | none => return none
      | some (vars, observed) => runSteps flow origin rest vars observed

def _finding (flow : Sentrik.FlowDefinition) (origin : Text) : RawFinding :=
  ⟨CheckClass.BUSINESS_FLOW.value, Dict.recipe [
    ("detector", .text "business_flow"),
    ("flow", .str flow.name),
    ("origin", .str origin),
    ("invariant_var", .str flow.invariant_var),
    ("invariant_max", LoadedCheck.ofInt flow.invariant_max)]⟩

/-- The invariant, on what was observed last. -/
def judge (flow : Sentrik.FlowDefinition) (origin : Text) (observed : Option Json) :
    Except Raised (List RawFinding) :=
  match observed.map lib.float with
  | none | some (.error .ValueError) | some (.error .TypeError) => .ok []
  | some (.error exc) => .error exc
  | some (.ok numeric) =>
    if numeric.le flow.invariant_max then .ok [] else .ok [_finding flow origin]

def run (ctx : CheckContext) : Program (List RawFinding) := do
  match ← MonadExcept.ofExcept (flowFor ctx.endpoint) with
  | none => return []
  | some flow =>
    let origin ← MonadExcept.ofExcept (_origin ctx.endpoint.url)
    match ← reached (runSteps flow origin flow.steps [] none) with
    | none | some none => return []
    | some (some observed) => MonadExcept.ofExcept (judge flow origin observed)

/-! ### The two loops on the same answers -/

/-- The validator decodes the body of the step, or does not need to. -/
def Rereads (step : FlowStep) (e : Exchange) : Prop :=
  match e.2 with
  | .error _ => False
  | .ok resp =>
    match lib.loads resp.text with
    | .ok _ => True
    | .error .ValueError | .error .TypeError => step.extract = []
    | .error _ => False

def Confirms (x : Except Raised ValidationOutcome) : Prop := ∃ o, x = .ok o ∧ o.outcome = .CONFIRMED

/-- The value was read from a response as the variable of the invariant. -/
def ReadAs (flow : Sentrik.FlowDefinition) (log : List Exchange) (value : Json) : Prop :=
  ∃ query resp key, (query, Except.ok resp) ∈ log ∧ _extract resp.text key = .ok (some value) ∧
    ∃ step ∈ flow.steps, (flow.invariant_var, key) ∈ step.extract

variable {flow : Sentrik.FlowDefinition} {origin : Text} {log : List Exchange}

omit u lib in
theorem not_confirms_error (exc : Raised) : ¬Confirms (.error exc) := by
  rintro ⟨o, ho, -⟩
  cases ho

omit u lib in
theorem not_confirms_ok {o : ValidationOutcome} (h : o.outcome ≠ .CONFIRMED) : ¬Confirms (.ok o) := by
  rintro ⟨o', ho, hconfirmed⟩
  exact h (Except.ok.inj ho ▸ hconfirmed)

/-- What is read from a document is what the validator reads. -/
theorem readVariables_document {body : Text} {data : Json} (hdata : lib.loads body = .ok data)
    {items vars : List (Text × Text)} {observed : Option Json} {r : List (Text × Text) × Option Json}
    (h : readVariables flow body items vars observed = .ok (some r)) :
    Validation.readVariables flow data items vars observed = .ok r := by
  induction items generalizing vars observed with
  | nil => exact congrArg Except.ok (Option.some.inj (Except.ok.inj h))
  | cons item rest ih =>
    obtain ⟨var, key⟩ := item
    obtain ⟨found, hfound, h⟩ := exists_of_bind_eq_ok h
    rw [_extract, hdata] at hfound
    cases data with
    | obj fields =>
      obtain rfl : Dict.get? fields key = found := Except.ok.inj hfound
      have hget : (Json.obj fields).dict?.bind (·.get? key) = Dict.get? fields key := rfl
      rw [Validation.readVariables, hget]
      generalize Dict.get? fields key = found at h ⊢
      cases found with
      | none => cases h
      | some value =>
        cases value with
        | null => cases h
        | bool b => exact ih h
        | num t zero => exact ih h
        | str t => exact ih h
        | arr items => exact ih h
        | obj fields' => exact ih h
    | null | bool b | num t zero | str t | arr items =>
      obtain rfl := Except.ok.inj hfound
      cases h

/-- What is read was read before, or from this body. -/
theorem observed_of_readVariables {body : Text} {items vars : List (Text × Text)} {observed : Option Json}
    {r : List (Text × Text) × Option Json} (h : readVariables flow body items vars observed = .ok (some r)) :
    r.2 = observed ∨ ∃ key value, (flow.invariant_var, key) ∈ items ∧ _extract body key = .ok (some value) ∧
      r.2 = some value := by
  induction items generalizing vars observed with
  | nil => exact Or.inl (congrArg Prod.snd (Option.some.inj (Except.ok.inj h)).symm)
  | cons item rest ih =>
    obtain ⟨var, key⟩ := item
    obtain ⟨found, hfound, h⟩ := exists_of_bind_eq_ok h
    split at h
    · cases h
    · cases h
    next value _ =>
      rcases ih h with hobs | ⟨key', value', hmem, hextract, hobs⟩
      · by_cases hvar : var = flow.invariant_var
        · rw [if_pos hvar] at hobs
          exact Or.inr ⟨key, value, hvar ▸ List.mem_cons_self, hfound, hobs⟩
        · rw [if_neg hvar] at hobs
          exact Or.inl hobs
      · exact Or.inr ⟨key', value', List.mem_cons_of_mem _ hmem, hextract, hobs⟩

/-- What the loop of the check says about the loop of the validator. -/
structure Replayed (flow : Sentrik.FlowDefinition) (origin : Text) (steps : List FlowStep)
    (vars : List (Text × Text)) (observed seen : Option Json) (log : List Exchange) : Prop where
  /-- Where all bodies are reread, the validator comes to judge what the check has observed. -/
  alike : List.Forall₂ Rereads steps log → ∀ log' x,
    Ends (Validation.judgeObserved flow seen).run log' x →
      Ends (Validation.runSteps flow (.str origin) steps vars observed).run (log ++ log') x
  parts : ¬List.Forall₂ Rereads steps log → ∃ log' x, log' <+: log ∧ ¬Confirms x ∧
    Ends (Validation.runSteps flow (.str origin) steps vars observed).run log' x
  read : seen = observed ∨ ∃ value, seen = some value ∧ ∃ query resp key, (query, Except.ok resp) ∈ log ∧
    _extract resp.text key = .ok (some value) ∧ ∃ step ∈ steps, (flow.invariant_var, key) ∈ step.extract

/-- The first step of the validator, up to where it has its response. -/
theorem ends_step {step : FlowStep} {rest : List FlowStep} {vars : List (Text × Text)}
    {observed : Option Json} {path : Text} {resp : GuardedResponse} {x : Except Raised ValidationOutcome}
    (hpath : (if vars = [] then .ok step.path else lib.format step.path vars) = Except.ok path)
    (hstatus : ¬resp.status_code ∉ step.expect_status)
    (h : Ends (do
      let data ← MonadExcept.ofExcept (Validation.loadsOrEmpty resp.text)
      match Validation.readVariables flow data step.extract vars observed with
      | .error outcome => return outcome
      | .ok (vars, observed) => Validation.runSteps flow (.str origin) rest vars observed :
        Program ValidationOutcome).run log x) :
    Ends (Validation.runSteps flow (.str origin) (step :: rest) vars observed).run
      ((stepCall step (.str (origin ++ path)), .ok resp) :: log) x := by
  rw [Validation.runSteps, hpath, ofExcept_ok_bind]
  dsimp only
  rw [ofExcept_ok_bind]
  refine .ask ?_
  show Ends (if resp.status_code ∉ step.expect_status then _ else _ : Program ValidationOutcome).run log x
  rw [if_neg hstatus]
  exact h

omit u in
/-- A body that is not a document is an empty one for the validator, or raises. -/
theorem rereads_of_error {step : FlowStep} {query : Query} {resp : GuardedResponse} {exc : Raised}
    (h : lib.loads resp.text = .error exc) :
    (Validation.loadsOrEmpty resp.text = .ok (.obj []) ∧
        (Rereads step (query, .ok resp) ↔ step.extract = [])) ∨
      Validation.loadsOrEmpty resp.text = .error exc ∧ ¬Rereads step (query, .ok resp) := by
  simp only [Rereads, Validation.loadsOrEmpty, h]
  cases exc with
  | ValueError | TypeError => exact Or.inl ⟨rfl, Iff.rfl⟩
  | client | AttributeError | KeyError | OverflowError | RecursionError | PatternError =>
    exact Or.inr ⟨rfl, id⟩

/-- The variables the validator has of a body that it rereads. -/
theorem readVariables_of_rereads {step : FlowStep} {query : Query} {resp : GuardedResponse}
    {vars : List (Text × Text)} {observed : Option Json} {r : List (Text × Text) × Option Json}
    (h : Rereads step (query, .ok resp))
    (hread : readVariables flow resp.text step.extract vars observed = .ok (some r)) :
    ∃ data, Validation.loadsOrEmpty resp.text = .ok data ∧
      Validation.readVariables flow data step.extract vars observed = .ok r := by
  cases hload : lib.loads resp.text with
  | ok data => exact ⟨data, by rw [Validation.loadsOrEmpty, hload], readVariables_document hload hread⟩
  | error exc =>
    rcases rereads_of_error hload with ⟨hempty, hiff⟩ | ⟨-, hnot⟩
    · rw [hiff.1 h] at hread ⊢
      exact ⟨.obj [], hempty, congrArg Except.ok (Option.some.inj (Except.ok.inj hread))⟩
    · exact absurd h hnot

/-- At a body that it does not reread, the validator ends. -/
theorem ends_of_not_rereads {step : FlowStep} {rest : List FlowStep} {query : Query} {resp : GuardedResponse}
    {vars : List (Text × Text)} {observed : Option Json} (h : ¬Rereads step (query, .ok resp)) :
    ∃ x, ¬Confirms x ∧ Ends (do
      let data ← MonadExcept.ofExcept (Validation.loadsOrEmpty resp.text)
      match Validation.readVariables flow data step.extract vars observed with
      | .error outcome => return outcome
      | .ok (vars, observed) => Validation.runSteps flow (.str origin) rest vars observed :
        Program ValidationOutcome).run [] x := by
  cases hload : lib.loads resp.text with
  | ok data => exact absurd (by simp only [Rereads, hload]) h
  | error exc =>
    rcases rereads_of_error hload with ⟨hempty, hiff⟩ | ⟨hraises, -⟩
    · -- a variable that is to be read is not in the empty document
      obtain ⟨item, items, hitems⟩ := List.exists_cons_of_ne_nil fun hnil ↦ h (hiff.2 hnil)
      have hread : Validation.readVariables flow (.obj []) step.extract vars observed =
          .error ⟨.INCONCLUSIVE, "extract_failed", s!"could not read {String.ofList item.2}", none⟩ := by
        rw [hitems]
        rfl
      rw [hempty, ofExcept_ok_bind, hread]
      exact ⟨_, not_confirms_ok (fun h ↦ by cases h), .done _⟩
    · rw [hraises, ofExcept_error_bind]
      exact ⟨_, not_confirms_error exc, .done _⟩

/-- **The loops agree, as long as all bodies are reread.** The induction is on the steps that are left. -/
theorem returns_runSteps (steps : List FlowStep) (vars : List (Text × Text)) (observed : Option Json) :
    Returns (runSteps flow origin steps vars observed) fun log r ↦ ∀ seen, r = some seen →
      Replayed flow origin steps vars observed seen log := by
  induction steps generalizing vars observed with
  | nil =>
    refine returns_pure.2 fun seen hseen ↦ ?_
    obtain rfl := Option.some.inj hseen
    exact ⟨fun _ log' x h ↦ h, fun hnot ↦ absurd .nil hnot, Or.inl rfl⟩
  | cons step rest ih =>
    rw [runSteps, returns_bind, returns_ofExcept]
    intro path hpath
    rw [returns_bind, returns_request]
    intro resp
    split
    · exact returns_pure.2 nofun
    next hstatus =>
    rw [returns_bind, returns_ofExcept]
    intro r hread
    split
    · exact returns_pure.2 nofun
    next vars' observed' =>
    refine (ih vars' observed').mono fun log r hrest seen hseen ↦ ?_
    have hrest := hrest seen hseen
    show Replayed flow origin (step :: rest) vars observed seen
      ((stepCall step (.str (origin ++ path)), .ok resp) :: log)
    refine ⟨fun h log' x hx ↦ ?_, fun h ↦ ?_, ?_⟩
    · obtain ⟨hstep, htail⟩ := List.forall₂_cons.1 h
      obtain ⟨data, hdata, hvars⟩ := readVariables_of_rereads hstep hread
      refine ends_step hpath hstatus ?_
      rw [hdata, ofExcept_ok_bind, hvars]
      exact hrest.alike htail log' x hx
    · by_cases hstep : Rereads step (stepCall step (.str (origin ++ path)), .ok resp)
      · obtain ⟨data, hdata, hvars⟩ := readVariables_of_rereads hstep hread
        obtain ⟨log', x, hprefix, hx, hends⟩ := hrest.parts fun htail ↦ h (.cons hstep htail)
        refine ⟨_ :: log', x, List.cons_prefix_cons.2 ⟨rfl, hprefix⟩, hx, ends_step hpath hstatus ?_⟩
        rw [hdata, ofExcept_ok_bind, hvars]
        exact hends
      · obtain ⟨x, hx, hends⟩ := ends_of_not_rereads hstep
        exact ⟨_, x, List.cons_prefix_cons.2 ⟨rfl, List.nil_prefix⟩, hx, ends_step hpath hstatus hends⟩
    · rcases hrest.read with hsame | ⟨value, hvalue, query, resp', key, hmem, hextract, s, hs, hkey⟩
      · rcases observed_of_readVariables hread with hobs | ⟨key, value, hkey, hextract, hobs⟩
        · exact Or.inl (hsame.trans hobs)
        · exact Or.inr ⟨value, hsame.trans hobs, _, resp, key, List.mem_cons_self, hextract, step,
            List.mem_cons_self, hkey⟩
      · exact Or.inr ⟨value, hvalue, query, resp', key, List.mem_cons_of_mem _ hmem, hextract, s,
          List.mem_cons_of_mem _ hs, hkey⟩

/-! ### The replay of a finding -/

omit lib in
/-- A flow that is found is one of the flows there are. -/
theorem mem_of_flowFor {endpoint : EndpointView} (h : flowFor endpoint = .ok (some flow)) :
    flow ∈ Sentrik.FLOWS := by
  rw [flowFor] at h
  obtain ⟨path, -, h⟩ := exists_of_bind_eq_ok h
  obtain ⟨pair, hpair, rfl⟩ := Option.map_eq_some_iff.1 (Except.ok.inj h)
  exact (List.of_mem_zip (List.mem_of_find?_eq_some hpair)).2

omit lib in
theorem _origin_ne_nil {url : Text} (h : _origin url = .ok origin) : origin ≠ [] := by
  obtain ⟨parts, -, h⟩ := exists_of_bind_eq_ok h
  rw [← Except.ok.inj h]
  intro hnil
  rw [List.append_assoc, List.append_eq_nil_iff, List.append_eq_nil_iff] at hnil
  exact absurd hnil.2.1 (by decide)

/-- A run of the check that has a finding. -/
structure Detected (log : List Exchange) (F : RawFinding) (flow : Sentrik.FlowDefinition) (origin : Text)
    (value : Json) (numeric : PyFloat) : Prop where
  known : flow ∈ Sentrik.FLOWS
  origin_ne : origin ≠ []
  finding : F = _finding flow origin
  read : ReadAs flow log value
  number : lib.float value = .ok numeric
  exceeds : numeric.le flow.invariant_max = false
  replayed : Replayed flow origin flow.steps [] none (some value) log

theorem returns_run (ctx : CheckContext) : Returns (run ctx) fun log findings ↦ ∀ F ∈ findings,
    ∃ flow origin value numeric, Detected log F flow origin value numeric := by
  rw [run, returns_bind, returns_ofExcept]
  intro found hfound
  split
  · exact returns_pure.2 nofun
  next flow =>
  rw [returns_bind, returns_ofExcept]
  intro origin horigin
  rw [returns_bind, reached, returns_bind, returns_attempt]
  refine Always.mono (returns_runSteps flow.steps [] none) fun log x hx ↦ ?_
  cases x with
  | error exc =>
    split
    next heq => cases heq
    · exact returns_pure.2 (returns_pure.2 nofun)
    · exact returns_throw
  | ok r =>
    refine returns_pure.2 ?_
    cases r with
    | none => exact returns_pure.2 nofun
    | some seen =>
      have hreplayed := hx (some seen) rfl seen rfl
      refine returns_ofExcept.2 fun findings hjudge F hF ↦ ?_
      rw [judge] at hjudge
      split at hjudge
      · cases Except.ok.inj hjudge ▸ hF
      · cases Except.ok.inj hjudge ▸ hF
      · cases Except.ok.inj hjudge ▸ hF
      · cases hjudge
      next numeric hnumeric =>
        obtain ⟨value, rfl, hfloat⟩ := Option.map_eq_some_iff.1 hnumeric
        split at hjudge
        · cases Except.ok.inj hjudge ▸ hF
        next hle =>
          have hfinding : F = _finding flow origin := List.mem_singleton.1 (Except.ok.inj hjudge ▸ hF)
          obtain ⟨value', hvalue', query, resp, key, hmem, hextract, step, hstep, hkey⟩ :=
            hreplayed.read.resolve_left nofun
          obtain rfl := Option.some.inj hvalue'
          refine ⟨flow, origin, value, numeric, mem_of_flowFor hfound, _origin_ne_nil horigin, hfinding,
            ⟨query, resp, key, ?_, hextract, step, hstep, hkey⟩, hfloat, eq_false_of_ne_true hle, ?_⟩
          · simpa using hmem
          · simpa using hreplayed

variable [w : WordTables]

/-- The recipe of a finding has the flow and the origin that were used. -/
theorem validate_finding_flow {sessions : List AuthSession} (known : flow ∈ Sentrik.FLOWS) (hne : origin ≠ []) :
    Validation.dispatched (_finding flow origin).check_class (_finding flow origin).reproduction sessions =
      Validation.runSteps flow (.str origin) flow.steps [] none := by
  obtain rfl : flow = COUPON_REPLAY := List.mem_singleton.1 known
  have hflow : (_finding COUPON_REPLAY origin).reproduction.get "flow" = .str COUPON_REPLAY.name := by
    rw [_finding, Dict.get_eq_getD, Dict.getD_recipe_cons, if_neg (by decide), Dict.getD_recipe_cons,
      if_pos rfl]
  have horigin : (_finding COUPON_REPLAY origin).reproduction.get "origin" = .str origin := by
    rw [_finding, Dict.get_eq_getD, Dict.getD_recipe_cons, if_neg (by decide), Dict.getD_recipe_cons,
      if_neg (by decide), Dict.getD_recipe_cons, if_pos rfl]
  show Validation._validate_business_flow (_finding COUPON_REPLAY origin).reproduction = _
  rw [Validation._validate_business_flow]
  rw [hflow, horigin]
  have htruthy : (Json.str origin).truthy = true := by
    cases origin with
    | nil => exact absurd rfl hne
    | cons c t => rfl
  have hfind : Sentrik.FLOWS.find? (fun f ↦ (Json.str COUPON_REPLAY.name).is f.name) = some COUPON_REPLAY := by
    rfl
  rw [hfind, htruthy]
  rfl

/-- The handlers around the validators confirm nothing. -/
theorem ends_validate_finding {check_class : String} {reproduction : Dict} {sessions : List AuthSession}
    {x : Except Raised ValidationOutcome} (hrecipe : reproduction.isEmpty = false)
    (h : Ends (Validation.dispatched check_class reproduction sessions).run log x) :
    ∃ y, (Confirms y ↔ Confirms x) ∧
      Ends (Validation.validate_finding check_class reproduction sessions).run log y := by
  rw [Validation.validate_finding, hrecipe, if_neg Bool.false_ne_true, ExceptT.run_bind, attempt,
    ExceptT.run_lift, map_eq_pure_bind, bind_assoc]
  have hbind := fun {f : Except Raised ValidationOutcome → Interaction Query Answer (Except Raised ValidationOutcome)}
    {y} (hy : Ends (f x) [] y) ↦ List.append_nil log ▸ h.bind hy
  cases x with
  | ok o => exact ⟨.ok o, Iff.rfl, hbind (.done _)⟩
  | error exc =>
    have hthrown : ∀ exc', ¬Confirms (.error exc') := not_confirms_error
    cases exc with
    | client exc =>
      cases exc with
      | ScopeViolation | TargetUnreachable =>
        exact ⟨_, iff_of_false (not_confirms_ok fun h ↦ by cases h) (hthrown _), hbind (.done _)⟩
      | _ => exact ⟨_, iff_of_false (hthrown _) (hthrown _), hbind (.done _)⟩
    | _ => exact ⟨_, iff_of_false (hthrown _) (hthrown _), hbind (.done _)⟩

omit u w in
/-- The verdict on a number that the check has reported. -/
theorem ends_judgeObserved {value : Json} {numeric : PyFloat} (hnumber : lib.float value = .ok numeric)
    (hexceeds : numeric.le flow.invariant_max = false) :
    ∃ x, (Confirms x ↔ numeric ≠ .nan) ∧ Ends (Validation.judgeObserved flow (some value)).run [] x := by
  rw [Validation.judgeObserved, Option.map_some, hnumber]
  dsimp only
  split
  next hgt =>
    exact ⟨_, iff_of_true ⟨_, rfl, rfl⟩ ((PyFloat.gt_iff_of_not_le hexceeds).1 hgt), .done _⟩
  next hgt =>
    exact ⟨_, iff_of_false (not_confirms_ok fun h ↦ by cases h)
      fun h ↦ hgt ((PyFloat.gt_iff_of_not_le hexceeds).2 h), .done _⟩

/-- **The replay of a finding.** When the target answers the validator as it has answered the check, the
validator sends the requests of the check in their order, and it confirms the finding exactly when it decodes
the bodies and the value is a number. -/
theorem confirms_iff {ctx : CheckContext} {findings : List RawFinding} {F : RawFinding}
    {sessions : List AuthSession} (h : Ends (run ctx).run log (.ok findings)) (hF : F ∈ findings) :
    ∃ flow ∈ Sentrik.FLOWS, ∃ value numeric, ReadAs flow log value ∧ lib.float value = .ok numeric ∧
      numeric.le flow.invariant_max = false ∧ ∃ log' x, log' <+: log ∧
        Ends (Validation.validate_finding F.check_class F.reproduction sessions).run log' x ∧
          (Confirms x ↔ List.Forall₂ Rereads flow.steps log ∧ numeric ≠ .nan) := by
  obtain ⟨flow, origin, value, numeric, hdetected⟩ := always_iff.1 (returns_run ctx) log _ h findings rfl F hF
  obtain ⟨known, hne, rfl, hread, hnumber, hexceeds, hreplayed⟩ := hdetected
  refine ⟨flow, known, value, numeric, hread, hnumber, hexceeds, ?_⟩
  have hvalidate : ∀ {log' x}, Ends (Validation.runSteps flow (.str origin) flow.steps [] none).run log' x →
      ∃ y, (Confirms y ↔ Confirms x) ∧ Ends (Validation.validate_finding (_finding flow origin).check_class
        (_finding flow origin).reproduction sessions).run log' y := fun hends ↦
    ends_validate_finding rfl (by rw [validate_finding_flow known hne]; exact hends)
  by_cases hall : List.Forall₂ Rereads flow.steps log
  · -- the validator judges the value that the check has judged
    obtain ⟨x, hx, hjudge⟩ := ends_judgeObserved hnumber hexceeds
    obtain ⟨y, hy, hends⟩ := hvalidate (hreplayed.alike hall [] x hjudge)
    rw [List.append_nil] at hends
    exact ⟨log, y, List.prefix_rfl, hends, (hy.trans hx).trans (and_iff_right hall).symm⟩
  · obtain ⟨log', x, hprefix, hx, hends⟩ := hreplayed.parts hall
    obtain ⟨y, hy, hends⟩ := hvalidate hends
    exact ⟨log', y, hprefix, hends, iff_of_false (fun h ↦ hx (hy.1 h)) fun h ↦ hall h.1⟩

end Checks.BusinessFlowCheck

end

/-! ### A cart that stacks its discounts -/

section

attribute [local instance] asciiTables asciiWords

def cartBody : Text := "\x7b\"cart_id\": \"c1\", \"discount_pct\": 20\x7d".toList

/-- A library that decodes that cart. -/
@[reducible] def cartLibrary : StandardLibrary where
  compile _ := .ok ()
  search pattern text := Text.hasInfix pattern text
  loads text :=
    if text = cartBody then
      .ok (.obj [("cart_id".toList, .text "c1"), ("discount_pct".toList, .num "20".toList false)])
    else .error .ValueError
  float value := if value.toText = "20".toList then .ok (.finite 20) else .error .ValueError
  render _ := "20.0"
  int _ := .error .ValueError
  fullmatch pattern text := pattern = text
  sub _ _ text := .ok text
  format template vars := .ok (vars.foldl (fun t v ↦ Placeholder.replace ('{' :: v.1 ++ ['}']) v.2 t) template)

attribute [local instance] cartLibrary

open Checks.BusinessFlowCheck

theorem zeros_length : "0000000000".toList.length = 10 := rfl

theorem zeros_hex : ∀ c ∈ "0000000000".toList, c ∈ "0123456789abcdef".toList := by
  intro c hc
  obtain rfl : c = '0' := List.eq_of_mem_replicate (show c ∈ List.replicate 10 '0' from hc)
  exact List.mem_cons_self

def cartContext : Checks.CheckContext where
  endpoint := {
    method := "POST".toList
    url := "https://shop.example/api/cart".toList
    path_template := "/api/cart".toList
    parameters := [] }
  tokens _ := ⟨"0000000000".toList, zeros_length, zeros_hex⟩

/-- A target that shows the cart whatever it is asked. -/
def cartTarget (query : Query) : Answer := .ok {
  status_code := 200
  headers := []
  text := cartBody
  url := "https://shop.example/api/cart".toList
  request_method := query.method
  request_headers := []
  request_body := none }

def cartLog : List Exchange := trace cartTarget (run cartContext).run

/-- The finding on the cart is confirmed. -/
theorem confirms_iff_cart : ∃ F, Ends (run cartContext).run cartLog (.ok [F]) ∧
    ∃ log' x, log' <+: cartLog ∧
      Ends (Validation.validate_finding F.check_class F.reproduction []).run log' x ∧ Confirms x := by
  have hrun : Ends (run cartContext).run cartLog
      (.ok [_finding COUPON_REPLAY "https://shop.example".toList]) := ends_of_eval rfl
  obtain ⟨flow, known, value, numeric, -, hnumber, -, log', x, hprefix, hends, hiff⟩ :=
    @confirms_iff _ _ _ _ _ _ _ [] hrun List.mem_cons_self
  obtain rfl : flow = COUPON_REPLAY := List.mem_singleton.1 known
  have hall : List.Forall₂ Rereads COUPON_REPLAY.steps cartLog :=
    .cons trivial (.cons trivial (.cons trivial (.cons trivial .nil)))
  refine ⟨_, hrun, log', x, hprefix, hends, hiff.2 ⟨hall, ?_⟩⟩
  rintro rfl
  have hfloat : (if value.toText = "20".toList then .ok (.finite 20) else .error .ValueError :
      Except Raised PyFloat) = .ok .nan := hnumber
  split at hfloat
  · cases hfloat
  · cases hfloat

end

end Sentrik
