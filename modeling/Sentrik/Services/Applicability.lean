import Sentrik.Checks.Builtin
import Sentrik.Services.Planning
import Sentrik.Services.Verdicts

/-!
# The planner's gate and the checks' own

Before a check runs it is asked whether it applies (`applies_to`). The planner does not ask it: it has a
gate of its own, written once for all checks of a class (`_quick_applies`), and a pair that does not pass
it never becomes a step.

The two are written independently. `Mirrored` says where they agree: `quick_applies_iff` is exact, and
`losesNothing_iff` adds what it means for the plans.
-/

namespace Sentrik

/-- What a check is asked about: an endpoint as the planner sees it, and the sessions of the run. -/
structure CheckContext where
  endpoint : EndpointView
  sessions : List AuthSession := []

namespace CheckContext

def active (ctx : CheckContext) : List AuthSession := ctx.sessions.filter (!·.expired)

/-- What the planner is told of the sessions. -/
def multi (ctx : CheckContext) : Bool := 2 ≤ ctx.active.length

def injectable_params (ctx : CheckContext) : List Parameter := ctx.endpoint.injectable_params

end CheckContext

/-- The placeholder of an id-like segment. -/
def EndpointView.hasIdSegment (ev : EndpointView) : Bool := Text.hasInfix "{id}".toList ev.path_template

section

variable [u : UnicodeTables]

/-- One of the words is in the name, in lower case. -/
def Parameter.namesAny (p : Parameter) (words : List Text) : Bool :=
  words.any fun word ↦ Text.hasInfix word (u.lower p.name)

/-! ### The gates of the built-in checks -/

variable [lib : StandardLibrary]

namespace Checks

def SqlInjectionCheck.applies_to (ctx : Sentrik.CheckContext) : Bool :=
  !ctx.injectable_params.isEmpty || ctx.endpoint.hasIdSegment

def ReflectedXssCheck.applies_to (ctx : Sentrik.CheckContext) : Bool := !ctx.injectable_params.isEmpty

def OpenRedirectCheck.applies_to (ctx : Sentrik.CheckContext) : Bool :=
  ctx.injectable_params.any (·.namesAny OpenRedirectCheck.REDIRECT_PARAM_HINTS)

def BolaCheck.applies_to (ctx : Sentrik.CheckContext) : Bool :=
  ctx.endpoint.method == "GET".toList &&
    (lib.search BolaCheck._PATH_ID ctx.endpoint.path_template ||
      ctx.endpoint.parameters.any (·.namesAny ["id".toList])) &&
    2 ≤ ctx.active.length

/-- A location that is absent is `query`. -/
def NumericBoundsCheck.isRanged (p : Parameter) : Bool :=
  (p.location = [] || p.location == "query".toList) &&
    (lib.search NumericBoundsCheck._RANGE_PARAM p.name ||
      NumericBoundsCheck._NUMERIC_TYPES.contains (u.lower p.type))

def NumericBoundsCheck.applies_to (ctx : Sentrik.CheckContext) : Bool :=
  ctx.endpoint.method == "GET".toList && ctx.endpoint.parameters.any NumericBoundsCheck.isRanged

/-- The parameter a prompt goes to. -/
def PromptInjectionCheck.prompt_param (ctx : Sentrik.CheckContext) : Option Text :=
  let template := ctx.endpoint.path_template
  let path := if template.isEmpty then ctx.endpoint.url else template
  let params := (ctx.endpoint.parameters.filter (·.location == "query".toList)).map (·.name)
  if lib.search PromptInjectionCheck._ASSISTANT_HINT path then
    some ((params.find? (lib.search PromptInjectionCheck._PROMPT_PARAM)).getD (params.headD "q".toList))
  else params.find? (lib.fullmatch "(prompt|message)".toList)

def PromptInjectionCheck.applies_to (ctx : Sentrik.CheckContext) : Bool :=
  ctx.endpoint.method == "GET".toList && (PromptInjectionCheck.prompt_param ctx).isSome

/-- Where a flow starts. -/
structure FlowDefinition where
  anchor_suffix : Text
  anchor_method : Text

def FLOWS : List FlowDefinition := [⟨"/api/cart".toList, "POST".toList⟩]

/-- `path.rstrip("/").endswith(suffix)` -/
def endsAt (suffix path : Text) : Bool :=
  suffix.isSuffixOf (path.reverse.dropWhile (· == '/')).reverse

/-- The flow that starts at the endpoint. Without a template its URL is split, which can raise. -/
def BusinessFlowCheck._flow_for (ctx : Sentrik.CheckContext) : Except Raised (Option FlowDefinition) := do
  let template := ctx.endpoint.path_template
  let path ← if template.isEmpty then
      ((Url.urlsplit ctx.endpoint.url).map (·.path)).mapError fun _ ↦ .ValueError
    else .ok template
  return FLOWS.find? fun flow ↦
    u.upper ctx.endpoint.method == flow.anchor_method && endsAt flow.anchor_suffix path

def BusinessFlowCheck.applies_to (ctx : Sentrik.CheckContext) : Except Raised Bool := do
  return (← BusinessFlowCheck._flow_for ctx).isSome

end Checks

/-- The gate of a built-in check: each class has one check, and the check of the headers keeps the default
of its base class. -/
def BaseCheck.applies_to (c : BaseCheck) (ctx : CheckContext) : Except Raised Bool :=
  match c.check_class with
  | .SQLI => .ok (Checks.SqlInjectionCheck.applies_to ctx)
  | .XSS => .ok (Checks.ReflectedXssCheck.applies_to ctx)
  | .OPEN_REDIRECT => .ok (Checks.OpenRedirectCheck.applies_to ctx)
  | .BOLA => .ok (Checks.BolaCheck.applies_to ctx)
  | .BUSINESS_LOGIC => .ok (Checks.NumericBoundsCheck.applies_to ctx)
  | .BUSINESS_FLOW => Checks.BusinessFlowCheck.applies_to ctx
  | .LLM_PROMPT_INJECTION => .ok (Checks.PromptInjectionCheck.applies_to ctx)
  | .SECURITY_HEADERS | .INFO_DISCLOSURE | .AUTHZ => .ok true

/-! ### The gate of a declarative check -/

omit u lib in
/-- Whether the detector looks at the headers of one response. -/
def DeclarativeCheck.readsHeaders (d : DeclarativeCheck) : Bool :=
  d.manifest.detector.any (["header_missing", "header_present", "header_reflects"].contains ·)

omit u lib in
def DeclarativeCheck.applies_to (d : DeclarativeCheck) (ctx : CheckContext) : Bool :=
  if d.readsHeaders then ctx.endpoint.method == "GET".toList
  else !ctx.injectable_params.isEmpty || ctx.endpoint.hasIdSegment

/-- The check accepts the context. -/
def Check.applies_to (check : Check) (ctx : CheckContext) : Except Raised Bool :=
  match check with
  | .builtin c => c.applies_to ctx
  | .declarative d => .ok (d.applies_to ctx)

/-! ### Where they agree -/

/-- The words only the check of redirects knows. -/
def unmirroredHints : List Text := ["dest".toList, "continue".toList, "goto".toList, "callback".toList]

/-- A declarative check has no place in the context: one that reads headers wants a `GET`, any other a
parameter or an id-like segment. -/
def DeclarativeCheck.Unplaced (d : DeclarativeCheck) (ctx : CheckContext) : Prop :=
  if d.readsHeaders = true then ctx.endpoint.method ≠ "GET".toList
  else ctx.injectable_params = [] ∧ ctx.endpoint.hasIdSegment = false

/-- **The exact condition**, check by check. A check of redirects is not anchored by its own words alone, an
object check not by a placeholder of another name alone, a check of headers is for `GET`; and a declarative
check under the name of a built-in class meets the gate of that class. -/
def Mirrored (check : Check) (ctx : CheckContext) : Prop :=
  match check with
  | .builtin c =>
    match c.check_class with
    | .OPEN_REDIRECT =>
      ctx.injectable_params.any (·.namesAny unmirroredHints) = true →
        ctx.endpoint.namesAny ["redirect", "url", "return", "next"] = true
    | .BOLA =>
      ctx.endpoint.method = "GET".toList → ctx.multi = true →
        lib.search Checks.BolaCheck._PATH_ID ctx.endpoint.path_template = true →
          ctx.endpoint.hasIdSegment = true ∨ ctx.endpoint.namesAny ["id"] = true
    | .SECURITY_HEADERS | .INFO_DISCLOSURE => ctx.endpoint.method = "GET".toList
    | _ => True
  | .declarative d =>
    if d._class = "sqli" ∨ d._class = "xss" then
      d.readsHeaders = true → ctx.endpoint.method = "GET".toList →
        ctx.endpoint.parameters ≠ [] ∨ ctx.endpoint.hasIdSegment = true
    else if d._class = "open_redirect" then
      d.Unplaced ctx ∨ ctx.endpoint.namesAny ["redirect", "url", "return", "next"] = true
    else if d._class = "bola" then
      d.Unplaced ctx ∨ ctx.multi = true ∧ ctx.endpoint.method = "GET".toList ∧
        (ctx.endpoint.hasIdSegment = true ∨ ctx.endpoint.namesAny ["id"] = true)
    else if d._class = "security_headers" ∨ d._class = "info_disclosure" then
      d.readsHeaders = false → ctx.injectable_params ≠ [] ∨ ctx.endpoint.hasIdSegment = true →
        ctx.endpoint.method = "GET".toList
    else True

/-! ### Exactness -/

omit lib in
theorem namesAny_eq (ev : EndpointView) (words : List String) :
    ev.namesAny words = ev.parameters.any (·.namesAny (words.map String.toList)) := by
  rw [EndpointView.namesAny]
  congr 1
  funext p
  rw [Parameter.namesAny, List.any_map]
  rfl

omit u lib in
/-- What is injected into is a parameter. -/
theorem parameters_ne_nil {ctx : CheckContext} (h : ctx.injectable_params ≠ []) :
    ctx.endpoint.parameters ≠ [] := by
  intro hnil
  refine h ?_
  rw [CheckContext.injectable_params, EndpointView.injectable_params, hnil]
  rfl

omit lib in
theorem any_of_injectable {ctx : CheckContext} {words : List Text}
    (h : ctx.injectable_params.any (·.namesAny words) = true) :
    ctx.endpoint.parameters.any (·.namesAny words) = true := by
  obtain ⟨p, hp, hword⟩ := List.any_eq_true.1 h
  exact List.any_eq_true.2 ⟨p, List.mem_of_mem_filter hp, hword⟩

omit lib in
/-- The words of the check of redirects are those of the planner and its own. -/
theorem namesAny_redirect_hints (p : Parameter) :
    p.namesAny Checks.OpenRedirectCheck.REDIRECT_PARAM_HINTS =
      (p.namesAny (["redirect", "url", "return", "next"].map String.toList) ||
        p.namesAny unmirroredHints) := by
  have hany : ∀ f : Text → Bool, Checks.OpenRedirectCheck.REDIRECT_PARAM_HINTS.any f =
      ((["redirect", "url", "return", "next"].map String.toList).any f || unmirroredHints.any f) := by
    intro f
    simp only [Checks.OpenRedirectCheck.REDIRECT_PARAM_HINTS, unmirroredHints, List.map_cons, List.map_nil,
      List.any_cons, List.any_nil, Bool.or_false]
    ac_rfl
  exact hany _

omit lib in
theorem quick_applies_open_redirect (ctx : CheckContext) :
    (Checks.OpenRedirectCheck.applies_to ctx = true →
        ctx.endpoint.namesAny ["redirect", "url", "return", "next"] = true) ↔
      (ctx.injectable_params.any (·.namesAny unmirroredHints) = true →
        ctx.endpoint.namesAny ["redirect", "url", "return", "next"] = true) := by
  rw [Checks.OpenRedirectCheck.applies_to]
  constructor
  · intro h hown
    refine h ?_
    obtain ⟨p, hp, hword⟩ := List.any_eq_true.1 hown
    refine List.any_eq_true.2 ⟨p, hp, ?_⟩
    rw [namesAny_redirect_hints, hword, Bool.or_true]
  · intro h happlies
    obtain ⟨p, hp, hword⟩ := List.any_eq_true.1 happlies
    rw [namesAny_redirect_hints, Bool.or_eq_true] at hword
    rcases hword with hword | hword
    · rw [namesAny_eq]
      exact any_of_injectable (List.any_eq_true.2 ⟨p, hp, hword⟩)
    · exact h (List.any_eq_true.2 ⟨p, hp, hword⟩)

/-! What the planner's gate asks, class by class. -/

section

variable {check : Check} {ctx : CheckContext}

omit lib in
theorem quick_applies_injection (h : check.check_class = "sqli" ∨ check.check_class = "xss") :
    _quick_applies check ctx.endpoint ctx.multi = true ↔
      ctx.endpoint.parameters ≠ [] ∨ ctx.endpoint.hasIdSegment = true := by
  rw [_quick_applies, if_pos h, Bool.or_eq_true, Bool.not_eq_true', List.isEmpty_eq_false_iff]
  rfl

omit lib in
theorem quick_applies_redirect (h : check.check_class = "open_redirect") :
    _quick_applies check ctx.endpoint ctx.multi =
      ctx.endpoint.namesAny ["redirect", "url", "return", "next"] := by
  rw [_quick_applies, h]
  rfl

omit lib in
theorem quick_applies_object (h : check.check_class = "bola") :
    _quick_applies check ctx.endpoint ctx.multi = true ↔
      ctx.multi = true ∧ ctx.endpoint.method = "GET".toList ∧
        (ctx.endpoint.hasIdSegment = true ∨ ctx.endpoint.namesAny ["id"] = true) := by
  have hquick : _quick_applies check ctx.endpoint ctx.multi =
      (ctx.multi && ctx.endpoint.method == "GET".toList &&
        (ctx.endpoint.hasIdSegment || ctx.endpoint.namesAny ["id"])) := by
    rw [_quick_applies, h]
    rfl
  rw [hquick, Bool.and_eq_true, Bool.and_eq_true, Bool.or_eq_true, beq_iff_eq, and_assoc]

omit lib in
theorem quick_applies_headers
    (h : check.check_class = "security_headers" ∨ check.check_class = "info_disclosure") :
    _quick_applies check ctx.endpoint ctx.multi = true ↔ ctx.endpoint.method = "GET".toList := by
  have hquick : _quick_applies check ctx.endpoint ctx.multi = (ctx.endpoint.method == "GET".toList) := by
    rw [_quick_applies]
    rcases h with h | h <;> rw [h] <;> rfl
  rw [hquick, beq_iff_eq]

omit lib in
theorem quick_applies_other (hinjection : ¬(check.check_class = "sqli" ∨ check.check_class = "xss"))
    (hredirect : check.check_class ≠ "open_redirect") (hobject : check.check_class ≠ "bola")
    (hheaders : ¬(check.check_class = "security_headers" ∨ check.check_class = "info_disclosure")) :
    _quick_applies check ctx.endpoint ctx.multi = true := by
  rw [_quick_applies, if_neg hinjection, if_neg hredirect, if_neg hobject, if_neg hheaders]

end

theorem quick_applies_bola (ctx : CheckContext) :
    (Checks.BolaCheck.applies_to ctx = true → ctx.multi = true ∧ ctx.endpoint.method = "GET".toList ∧
        (ctx.endpoint.hasIdSegment = true ∨ ctx.endpoint.namesAny ["id"] = true)) ↔
      (ctx.endpoint.method = "GET".toList → ctx.multi = true →
        lib.search Checks.BolaCheck._PATH_ID ctx.endpoint.path_template = true →
          ctx.endpoint.hasIdSegment = true ∨ ctx.endpoint.namesAny ["id"] = true) := by
  have hids : ctx.endpoint.parameters.any (·.namesAny ["id".toList]) = ctx.endpoint.namesAny ["id"] :=
    (namesAny_eq ctx.endpoint ["id"]).symm
  have happlies : Checks.BolaCheck.applies_to ctx = true ↔
      ctx.endpoint.method = "GET".toList ∧
        (lib.search Checks.BolaCheck._PATH_ID ctx.endpoint.path_template = true ∨
          ctx.endpoint.namesAny ["id"] = true) ∧ ctx.multi = true := by
    rw [Checks.BolaCheck.applies_to, hids, Bool.and_eq_true, Bool.and_eq_true, Bool.or_eq_true, beq_iff_eq,
      and_assoc]
    rfl
  rw [happlies]
  tauto

omit u lib in
/-- What a declarative check is anchored by. -/
theorem declarative_applies_iff {d : DeclarativeCheck} {ctx : CheckContext} :
    d.applies_to ctx = true ↔ d.readsHeaders = true ∧ ctx.endpoint.method = "GET".toList ∨
      d.readsHeaders = false ∧ (ctx.injectable_params ≠ [] ∨ ctx.endpoint.hasIdSegment = true) := by
  rw [DeclarativeCheck.applies_to]
  cases d.readsHeaders with
  | true => simp
  | false => simp

omit u lib in
/-- A declarative check accepts the contexts it has a place in. -/
theorem declarative_applies_or (d : DeclarativeCheck) (ctx : CheckContext) (P : Prop) :
    (d.applies_to ctx = true → P) ↔ d.Unplaced ctx ∨ P := by
  rw [DeclarativeCheck.applies_to, DeclarativeCheck.Unplaced, imp_iff_not_or]
  refine or_congr_left ?_
  cases d.readsHeaders with
  | true => simp
  | false => simp

/-- The two gates on a declarative check. -/
theorem quick_applies_declarative (d : DeclarativeCheck) (ctx : CheckContext) :
    (d.applies_to ctx = true → _quick_applies (.declarative d) ctx.endpoint ctx.multi = true) ↔
      Mirrored (.declarative d) ctx := by
  rw [Mirrored]
  have hclass : (Check.declarative d).check_class = d._class := rfl
  split
  next h =>
    rw [quick_applies_injection (hclass ▸ h), declarative_applies_iff]
    have hparams := @parameters_ne_nil ctx
    constructor
    · exact fun hall hheaders hget ↦ hall (Or.inl ⟨hheaders, hget⟩)
    · rintro hall (⟨hheaders, hget⟩ | ⟨-, hplace⟩)
      · exact hall hheaders hget
      · exact hplace.imp hparams id
  next hinjection =>
  split
  next h => rw [quick_applies_redirect (hclass ▸ h), declarative_applies_or]
  next hredirect =>
  split
  next h => rw [quick_applies_object (hclass ▸ h), declarative_applies_or]
  next hobject =>
  split
  next h =>
    rw [quick_applies_headers (hclass ▸ h), declarative_applies_iff]
    constructor
    · exact fun hall hheaders hplace ↦ hall (Or.inr ⟨hheaders, hplace⟩)
    · rintro hall (⟨-, hget⟩ | ⟨hheaders, hplace⟩)
      · exact hget
      · exact hall hheaders hplace
  next hheaders =>
    exact iff_of_true (fun _ ↦ quick_applies_other hinjection hredirect hobject hheaders) trivial

/-- **Where the planner's gate loses nothing**, for every endpoint, every check and all sessions: exactly
where `Mirrored` holds. -/
theorem quick_applies_iff (check : Check) (ctx : CheckContext) :
    (check.applies_to ctx = .ok true → _quick_applies check ctx.endpoint ctx.multi = true) ↔
      Mirrored check ctx := by
  have hok : ∀ b : Bool, (Except.ok b : Except Raised Bool) = .ok true ↔ b = true :=
    fun b ↦ ⟨Except.ok.inj, congrArg _⟩
  cases check with
  | declarative d =>
    rw [Check.applies_to, hok]
    exact quick_applies_declarative d ctx
  | builtin c =>
    have hvalue : (Check.builtin c).check_class = c.check_class.value := rfl
    rw [Check.applies_to, BaseCheck.applies_to, Mirrored]
    cases hclass : c.check_class with
    | SQLI =>
      refine iff_of_true (fun happlies ↦ ?_) trivial
      rw [quick_applies_injection (by rw [hvalue, hclass]; exact Or.inl rfl)]
      rw [hok, Checks.SqlInjectionCheck.applies_to, Bool.or_eq_true, Bool.not_eq_true',
        List.isEmpty_eq_false_iff] at happlies
      exact happlies.imp parameters_ne_nil id
    | XSS =>
      refine iff_of_true (fun happlies ↦ ?_) trivial
      rw [quick_applies_injection (by rw [hvalue, hclass]; exact Or.inr rfl)]
      rw [hok, Checks.ReflectedXssCheck.applies_to, Bool.not_eq_true', List.isEmpty_eq_false_iff] at happlies
      exact Or.inl (parameters_ne_nil happlies)
    | OPEN_REDIRECT =>
      rw [quick_applies_redirect (by rw [hvalue, hclass]; rfl), hok]
      exact quick_applies_open_redirect ctx
    | BOLA =>
      rw [quick_applies_object (by rw [hvalue, hclass]; rfl), hok]
      exact quick_applies_bola ctx
    | SECURITY_HEADERS =>
      rw [quick_applies_headers (by rw [hvalue, hclass]; exact Or.inl rfl)]
      exact ⟨fun h ↦ h rfl, fun h _ ↦ h⟩
    | INFO_DISCLOSURE =>
      rw [quick_applies_headers (by rw [hvalue, hclass]; exact Or.inr rfl)]
      exact ⟨fun h ↦ h rfl, fun h _ ↦ h⟩
    | AUTHZ | BUSINESS_LOGIC | BUSINESS_FLOW | LLM_PROMPT_INJECTION =>
      refine iff_of_true (fun _ ↦ ?_) trivial
      rw [_quick_applies, hvalue, hclass]
      rfl

/-! ### The plans -/

/-- **Nothing is lost**: if the check accepts the context, the planner's gate accepts the pair, and every
plan over the endpoint that may use the check, by class and intensity, has its step. -/
def LosesNothing (check : Check) (ctx : CheckContext) : Prop :=
  check.applies_to ctx = .ok true →
    _quick_applies check ctx.endpoint ctx.multi = true ∧
    ∀ (registry : _Registry) (extra : List DeclarativeCheck) (endpoints : List EndpointView)
      (authorized : List String) (max_intensity : TestIntensity),
      check ∈ allChecks registry extra → ctx.endpoint ∈ endpoints →
      (authorized ≠ [] → check.check_class ∈ authorized) →
      _INTENSITY_RANK check.intensity ≤ _INTENSITY_RANK max_intensity →
        plannedStep ctx.endpoint check ∈
          build_plan registry endpoints authorized max_intensity ctx.multi extra

omit lib in
/-- The planner's gate lets no object check pass with fewer than two sessions, so the filter before it
drops nothing more. -/
theorem considers_of_quick_applies {check : Check} {ctx : CheckContext} {authorized : List String}
    {max_intensity : TestIntensity} (hclass : authorized ≠ [] → check.check_class ∈ authorized)
    (hrank : _INTENSITY_RANK check.intensity ≤ _INTENSITY_RANK max_intensity)
    (hquick : _quick_applies check ctx.endpoint ctx.multi = true) :
    Considers authorized max_intensity ctx.multi ctx.endpoint check := by
  refine ⟨hclass, hrank, fun hobject ↦ ?_, hquick⟩
  exact ((quick_applies_object hobject).1 hquick).1

/-- **Where the planner loses no applicable check.** For every endpoint, every check and all sessions. -/
theorem losesNothing_iff (check : Check) (ctx : CheckContext) :
    LosesNothing check ctx ↔ Mirrored check ctx := by
  rw [← quick_applies_iff]
  constructor
  · exact fun h happlies ↦ (h happlies).1
  · intro h happlies
    have hquick := h happlies
    refine ⟨hquick, fun registry extra endpoints authorized max_intensity hcheck hev hclass hrank ↦ ?_⟩
    exact mem_build_plan_iff.2
      ⟨ctx.endpoint, hev, check, hcheck, considers_of_quick_applies hclass hrank hquick, rfl⟩

end

/-! ### Checks that are never planned -/

section

attribute [local instance] asciiTables literalLibrary

/-- A page that sends its visitor on to where `dest` says. -/
def onwardContext : CheckContext where
  endpoint := { id := 1, method := "GET".toList, url := "https://app.example/go".toList,
                path_template := "/go".toList,
                parameters := [{ name := "dest".toList, location := "query".toList }] }

def redirectCheck : BaseCheck where
  name := "redirect.open"
  check_class := .OPEN_REDIRECT
  intensity := .SAFE_ACTIVE

/-- **The planner does lose some**: the check of redirects accepts a parameter named `dest`, and the planner
does not know the word. -/
theorem onward_lost :
    ¬ ∀ (check : Check) (ctx : CheckContext), LosesNothing check ctx := by
  intro hall
  have happlies : (Check.builtin redirectCheck).applies_to onwardContext = .ok true := by decide
  have hquick := (hall (.builtin redirectCheck) onwardContext happlies).1
  exact absurd hquick (by decide)

end

end Sentrik
