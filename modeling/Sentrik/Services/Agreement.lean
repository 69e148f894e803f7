import Sentrik.Services.Emissions
import Sentrik.Services.Verdicts

/-!
# Checks and validators agree

A check writes the recipe of a finding, and the validator of the finding's class reads it. Against a
client that answers by a function, `agreement_iff` says for every check and every finding it emits
exactly when the validation rejects the recipe at once (`Diverges`). The two sides part in four places:

* a check compares the method of its endpoint with `GET`, a validator compares it in upper case;
* the recipe of an object of another account has the URL of the request and the role of the attacker,
  but not the parameters of the request, and a role can have several sessions;
* the finding of a declarative check goes to the validator of its class, whatever its detector is;
* a marker that is the empty text is found in every response by the check, and in none by the validator.
-/

namespace Sentrik

open Interaction

open Validation

namespace Checks

/-- What is used of the runtime: case mapping of ASCII texts, lower case twice, and the integer of an
integer. -/
structure RuntimeLaws [u : UnicodeTables] [lib : StandardLibrary] : Prop where
  lower_ascii : ∀ t : Text, t.all Url.isAscii = true → u.lower t = t.map Char.toLower
  upper_ascii : ∀ t : Text, t.all Url.isAscii = true → u.upper t = t.map Char.toUpper
  lower_lower : ∀ t : Text, u.lower (u.lower t) = u.lower t
  int_ofInt : ∀ n : ℤ, lib.int (LoadedCheck.ofInt n) = .ok n

section

variable [u : UnicodeTables] [lib : StandardLibrary]

/-! ### Where they part -/

/-- The method is not `GET`, but a validator reads it as `GET`. -/
def MethodRespelled (method : Text) : Prop :=
  method ≠ "GET".toList ∧ u.upper (if method = [] then "GET".toList else method) = "GET".toList

/-- The check sends the id of the object as a parameter. -/
def IdInParameter (ctx : CheckContext) (obj : Text) : Prop :=
  ∃ url params, BolaCheck._build_target ctx obj = .ok (url, params) ∧ params ≠ []

/-- Two active sessions of a role send different headers. -/
def SharedRole (sessions : List AuthSession) (role : Text) : Prop :=
  ∃ s ∈ sessions, ∃ s' ∈ sessions, s.expired = false ∧ s'.expired = false ∧ s.role_name = role ∧
    s'.role_name = role ∧ s.headers ≠ s'.headers

/-- An empty dictionary of parameters is not answered as no parameters are: it takes the query away that
the URL has. -/
def EmptyParamsMatter (answer : Query → Answer) (url : Json) : Prop :=
  ∃ headers, answer { url, headers, params := some [] } ≠ answer { url, headers }

/-- The requests the recipe of an object stands for are not those of the check. -/
def OtherRequest (answer : Query → Answer) (ctx : CheckContext) (repro : Dict) : Prop :=
  IdInParameter ctx (repro.getD "object_id" (.text "")).toText ∨
    SharedRole ctx.sessions (repro.getD "attacker_role" (.text "")).toText ∨
    EmptyParamsMatter answer (repro.get "url")

/-- The recipe is one of a reflected marker that is the empty text. -/
def EmptyMarker (repro : Dict) : Prop :=
  Detector.ofRecipe repro = some .reflection ∧ repro.getD "payload" (.text "") = .str []

/-- Where the validator of the class rejects what a declarative check has emitted. -/
def DeclarativeDiverges (answer : Query → Answer) (ctx : CheckContext) (F : RawFinding) : Prop :=
  F.check_class ≠ "bola" ∧
    match dispatch.lookup F.check_class with
    | some .xss => XssRejects answer F.reproduction
    | some .open_redirect => RedirectRejects answer F.reproduction
    | some .business_logic => BusinessLogicRejects answer F.reproduction
    | some .prompt_injection => PromptRejects answer F.reproduction
    | some .sqli | some .headers | some .business_flow => False
    | none => (MethodRespelled ctx.endpoint.method ∨ EmptyMarker F.reproduction) ∧
        DeclarativeRejects answer F.reproduction

/-- Where the validation rejects what a check has emitted. -/
def Diverges (answer : Query → Answer) (ctx : CheckContext) (F : RawFinding) : DetectingCheck → Prop
  | .builtin .sqli => MethodRespelled ctx.endpoint.method ∧ SqliRejects answer F.reproduction
  | .builtin .xss => MethodRespelled ctx.endpoint.method ∧ XssRejects answer F.reproduction
  | .builtin .bola => OtherRequest answer ctx F.reproduction ∧
      BolaRejects answer F.reproduction ctx.sessions
  | .builtin .open_redirect | .builtin .headers | .builtin .business_logic | .builtin .llm_redteam =>
      False
  | .declarative _ => DeclarativeDiverges answer ctx F

/-! ### The same call -/

variable {answer : Query → Answer} {ctx : CheckContext}

theorem upper_get (laws : RuntimeLaws) : u.upper "GET".toList = "GET".toList :=
  (laws.upper_ascii "GET".toList (by decide)).trans (by decide)

/-- Where the method is read alike, the call of a validator is the one of the check. -/
theorem resend_eq_probe (laws : RuntimeLaws) {endpoint : EndpointView}
    (h : ¬MethodRespelled endpoint.method) (overrides : Overrides) :
    resend (.str endpoint.method) (.str endpoint.url) overrides =
      some (endpoint.probe overrides none) := by
  have hor : (Json.str endpoint.method).or (.text "GET") =
      .str (if endpoint.method = [] then "GET".toList else endpoint.method) := by
    cases endpoint.method with
    | nil => rfl
    | cons c t => rfl
  rw [resend, hor, EndpointView.probe]
  dsimp only
  by_cases hget : endpoint.method = "GET".toList
  · have hne : endpoint.method ≠ [] := hget ▸ List.cons_ne_nil _ _
    rw [if_pos hget, if_neg hne, hget, if_pos (upper_get laws)]
  · have hupper : u.upper (if endpoint.method = [] then "GET".toList else endpoint.method) ≠
        "GET".toList := fun hupper ↦ h ⟨hget, hupper⟩
    have hne : endpoint.method ≠ [] := fun hnil ↦ hupper (by rw [if_pos hnil, upper_get laws])
    rw [if_neg hget, if_neg hupper, if_neg hne]

/-- So what it receives is what the check has received. -/
theorem eq_of_resent (laws : RuntimeLaws) (h : ¬MethodRespelled ctx.endpoint.method)
    {name value : Json} {resp resp' : GuardedResponse} (hsent : Sent answer ctx name value resp)
    (hresent : Resent answer (.str ctx.endpoint.method) (.str ctx.endpoint.url) name value resp') :
    resp' = resp := by
  obtain ⟨overrides, ho, hresp⟩ := hsent
  obtain ⟨overrides', query, ho', hquery, hresp'⟩ := hresent
  obtain rfl : overrides = overrides' := Except.ok.inj (ho.symm.trans ho')
  rw [resend_eq_probe laws h] at hquery
  rw [← Option.some.inj hquery] at hresp'
  exact Except.ok.inj (hresp'.symm.trans hresp)

omit u lib in
theorem eq_of_fetched {name : Json} {value : Text} {resp resp' : GuardedResponse}
    (hgot : Got answer ctx name value resp)
    (hfetched : Fetched answer (.str ctx.endpoint.url) name (.str value) 3 resp') : resp' = resp := by
  obtain ⟨overrides, ho, hresp⟩ := hgot
  obtain ⟨overrides', ho', hresp'⟩ := hfetched
  obtain rfl : overrides = overrides' := Except.ok.inj (ho.symm.trans ho')
  exact Except.ok.inj (hresp'.symm.trans hresp)

/-! ### Built-in checks -/

theorem renderable_lower (laws : RuntimeLaws) (status : ℕ) (content_type : Text) :
    renderable_html_context status (u.lower content_type) =
      renderable_html_context status content_type := by
  rw [renderable_html_context, renderable_html_context, laws.lower_lower]

omit lib in
/-- What the check has looked for is what the recipe of its marker makes a validator look for. -/
theorem reflectedIn_token {token : Token} {payload : Json} {text : Text}
    (hraw : Text.hasInfix ("<szx".toList ++ token.text ++ ['>']) text = true)
    (hescaped : Text.hasInfix ("&lt;szx".toList ++ token.text ++ "&gt;".toList) text = false) :
    reflectedIn (rawMarker (.str token.text) payload) (escapedMarker (.str token.text)) text =
      .ok true := by
  have htruthy : (Json.str token.text).truthy = true := by
    cases htext : token.text with
    | nil => exact absurd htext token.text_ne_nil
    | cons c t => rfl
  rw [rawMarker, escapedMarker, if_pos htruthy, if_pos htruthy, Json.toText]
  show (do
    return (← (Json.str ("<szx".toList ++ token.text ++ ['>'])).isIn text) && _ : Except Raised Bool) = _
  rw [Json.isIn, hraw, hescaped]
  show Except.ok (true && (_ || !false)) = _
  rw [Bool.not_false, Bool.or_true, Bool.and_true]

theorem ReflectedXssCheck.not_rejects (laws : RuntimeLaws) {F : RawFinding}
    (h : ¬MethodRespelled ctx.endpoint.method) (hF : ReflectedXssCheck.Emitted answer ctx F) :
    ¬XssRejects answer F.reproduction := by
  obtain ⟨name, token, resp, rfl, hsent, hrender, hraw, hescaped⟩ := hF
  rintro ⟨resp', reflected, hresent, hreflected, hnot⟩
  simp only [ReflectedXssCheck._finding, Dict.get_eq_getD, Dict.getD_recipe_cons, String.reduceEq,
    if_true, if_false] at hresent hreflected
  obtain rfl := eq_of_resent laws h hsent hresent
  rw [reflectedIn_token hraw hescaped] at hreflected
  rw [renderable_lower laws] at hrender
  exact hnot ⟨(Except.ok.inj hreflected).symm, hrender⟩

theorem SqlInjectionCheck.not_rejects (laws : RuntimeLaws) {F : RawFinding}
    (h : ¬MethodRespelled ctx.endpoint.method) (hF : SqlInjectionCheck.Emitted answer ctx F) :
    ¬SqliRejects answer F.reproduction := by
  obtain ⟨name, ⟨payload, resp, rfl, hsent, hfound⟩ | ⟨r_true, r_false, rfl, htrue, hfalse, hdiffers⟩⟩ := hF
  · rw [SqliRejects]
    simp only [SqlInjectionCheck._error_finding, Dict.get_eq_getD, Dict.getD_recipe_cons,
      String.reduceEq, if_true, if_false]
    rw [if_pos (by decide)]
    rintro ⟨resp', _, hresent, -, hnone, -⟩
    rw [eq_of_resent laws h hsent hresent, hfound] at hnone
    cases hnone
  · rw [SqliRejects]
    simp only [SqlInjectionCheck._boolean_finding, Dict.get_eq_getD, Dict.getD_recipe_cons,
      String.reduceEq, if_true, if_false]
    rw [if_neg (by decide)]
    rintro ⟨-, _, r_true', r_false', -, hresent, hresent', hstatus, hlength⟩
    rw [eq_of_resent laws h htrue hresent, eq_of_resent laws h hfalse hresent'] at hstatus hlength
    rcases hdiffers with hdiffers | hdiffers
    · exact hdiffers hstatus
    · rw [hdiffers] at hlength
      cases hlength

theorem hostnameOf_canary (laws : RuntimeLaws) :
    hostnameOf (.str OpenRedirectCheck.CANARY) = .ok (some OpenRedirectCheck.CANARY_HOST) := by
  have hlower : u.lower OpenRedirectCheck.CANARY_HOST = OpenRedirectCheck.CANARY_HOST :=
    (laws.lower_ascii OpenRedirectCheck.CANARY_HOST (by decide)).trans (by decide)
  have hsplit : hostnameOf (.str OpenRedirectCheck.CANARY) =
      .ok (some (u.lower OpenRedirectCheck.CANARY_HOST)) := rfl
  rw [hsplit, hlower]

theorem OpenRedirectCheck.not_rejects (laws : RuntimeLaws) {F : RawFinding}
    (hF : OpenRedirectCheck.Emitted answer ctx F) : ¬RedirectRejects answer F.reproduction := by
  obtain ⟨name, overrides, rfl, ho, hanswer⟩ := hF
  rintro ⟨resp, ⟨overrides', ho', hresp⟩, hpoints⟩
  simp only [OpenRedirectCheck._finding, Dict.get_eq_getD, Dict.getD_recipe_cons, String.reduceEq,
    if_true, if_false] at ho' hresp hpoints
  obtain rfl : overrides = overrides' := Except.ok.inj (ho.symm.trans ho')
  rw [hresp] at hanswer
  obtain ⟨hlocation, hhost⟩ := hanswer
  rw [pointsTo, if_neg hlocation, hhost, hostnameOf_canary laws] at hpoints
  exact absurd (Except.ok.inj hpoints) (by decide)

/-- What is sent with the method `GET` is fetched. -/
theorem fetched_of_resent (laws : RuntimeLaws) {url name value : Json} {resp : GuardedResponse}
    (h : Resent answer (.text "GET") url name value resp) : Fetched answer url name value 3 resp := by
  obtain ⟨overrides, query, ho, hquery, hresp⟩ := h
  have hget : resend (.text "GET") url overrides = some { url, params := some overrides } := by
    show (if u.upper "GET".toList = "GET".toList then _ else _) = _
    rw [if_pos (upper_get laws)]
  rw [hget] at hquery
  rw [← Option.some.inj hquery] at hresp
  exact ⟨overrides, ho, hresp⟩

theorem NumericBoundsCheck.not_rejects (laws : RuntimeLaws) {F : RawFinding}
    (hF : NumericBoundsCheck.Emitted answer ctx F) : ¬BusinessLogicRejects answer F.reproduction := by
  obtain ⟨name, value, resp, rfl, hgot, haccepted⟩ := hF
  rintro ⟨-, -, _, probe, -, hresent, -, hrefused⟩
  simp only [NumericBoundsCheck._finding, Dict.get_eq_getD, Dict.getD_recipe_cons, String.reduceEq,
    if_true, if_false, Json.toText, Json.text, upper_get laws] at hresent
  rw [eq_of_fetched hgot (fetched_of_resent laws hresent)] at hrefused
  omega

omit lib in
theorem PromptInjectionCheck.not_rejects {F : RawFinding}
    (hF : PromptInjectionCheck.Emitted answer ctx F) : ¬PromptRejects answer F.reproduction := by
  obtain ⟨param, baseline, injection, rfl, hbaseline, hinjection, hleaked⟩ := hF
  rintro ⟨-, -, baseline', injection', hfetched, hfetched', hnone⟩
  simp only [PromptInjectionCheck._finding, Dict.get_eq_getD, Dict.getD_recipe_cons, String.reduceEq,
    if_true, if_false] at hfetched hfetched'
  rw [eq_of_fetched hbaseline hfetched, eq_of_fetched hinjection hfetched'] at hnone
  exact hleaked hnone

theorem BolaCheck.not_rejects {F : RawFinding} (h : ¬OtherRequest answer ctx F.reproduction)
    (hF : BolaCheck.Emitted answer ctx F) : ¬BolaRejects answer F.reproduction ctx.sessions := by
  obtain ⟨attacker, hmem, victim, victim_obj, url, params, resp, hactive, htarget, rfl, hresp, h200, -⟩ :=
    hF
  rintro ⟨-, -, -, attacker', resp', hattacker', hresp', hstatus⟩
  rw [OtherRequest] at h
  simp only [BolaCheck._finding, Dict.get_eq_getD, Dict.getD_recipe_cons, String.reduceEq,
    if_true, if_false, Json.toText, not_or] at h hattacker' hresp'
  obtain ⟨hid, hshared, hempty⟩ := h
  have hparams : params = [] := by_contra fun hne ↦ hid ⟨url, params, htarget, hne⟩
  have hheaders : attacker.headers = attacker'.headers := by
    have hfound := List.find?_some hattacker'
    rw [Bool.and_eq_true, decide_eq_true_iff, Bool.not_eq_true'] at hfound
    exact by_contra fun hne ↦ hshared ⟨attacker, hmem, attacker', List.mem_of_find?_eq_some hattacker',
      hactive, hfound.2, rfl, hfound.1, hne⟩
  have hsame : answer { url := .str url, headers := some attacker.headers, params := some [] } =
      answer { url := .str url, headers := some attacker.headers } :=
    by_contra fun hne ↦ hempty ⟨_, hne⟩
  rw [hparams, hsame, hheaders, hresp'] at hresp
  rw [Except.ok.inj hresp, h200] at hstatus
  exact absurd hstatus (by decide)

/-! ### Declarative checks -/

namespace LoadedCheck

variable {c : LoadedCheck} {F : RawFinding}

omit u lib in
/-- What a validator reads in the recipe of a payload. -/
theorem getD_injected (name default : Json) (payload : Text) (detector : List (String × Json))
    (key : String) :
    (c._injected ctx name payload detector).reproduction.getD key default =
      if key = "declarative" then .text c.check.name
      else if key = "method" then .str ctx.endpoint.method
      else if key = "url" then .str ctx.endpoint.url
      else if key = "param" then name
      else if key = "payload" then .str payload
      else (Dict.recipe detector).getD key default := by
  rw [_injected, _finding, Dict.getD_setItem]
  simp only [List.cons_append, List.nil_append, Dict.getD_recipe_cons]

/-- The detectors a declarative check writes. -/
def recipeDetectors : List String :=
  ["error_signature", "status_code", "reflection", "header_presence", "header_reflects"]

/-- The recipe of a declarative check names one of its detectors, and neither an object nor a flow. -/
theorem reads_of_emitted (hF : Emitted answer ctx c F) :
    (∃ d ∈ recipeDetectors, F.reproduction.get "detector" = .text d) ∧
      F.reproduction.getD "object_id" (.text "") = .text "" ∧ F.reproduction.get "flow" = .null := by
  simp only [Dict.get_eq_getD]
  obtain ⟨name, payload, detector, resp, rfl, -, htriggered⟩ | ⟨detector, entries, hdetector, rfl, hkeys⟩ := hF
  · simp only [getD_injected, String.reduceEq, if_false]
    obtain ⟨sigs, rx, rfl, -⟩ | ⟨trigger, rfl, -⟩ | ⟨token, template, rfl, -⟩ := htriggered
    · simp [Dict.getD_recipe_cons, Dict.getD_recipe_nil, recipeDetectors]
    · simp [Dict.getD_recipe_cons, Dict.getD_recipe_nil, recipeDetectors]
    · simp [Dict.getD_recipe_cons, Dict.getD_recipe_nil, recipeDetectors]
  · simp only [_finding, Dict.getD_setItem, List.cons_append, List.nil_append, Dict.getD_recipe_cons,
      String.reduceEq, if_true, if_false]
    refine ⟨⟨detector, ?_, rfl⟩, ?_, ?_⟩
    · rw [recipeDetectors]
      exact List.mem_append_right ["error_signature", "status_code", "reflection"] hdetector
    · exact Dict.getD_recipe_of_notMem fun e he h ↦ absurd (h ▸ hkeys e he) (by decide)
    · exact Dict.getD_recipe_of_notMem fun e he h ↦ absurd (h ▸ hkeys e he) (by decide)

/-- The statuses of a recipe are those of the detector. -/
theorem triggerStatus_ofInt (laws : RuntimeLaws) (l : List ℤ) :
    triggerStatus (.arr (l.map ofInt)) = .ok l := by
  show (l.map ofInt).mapM lib.int = _
  induction l with
  | nil => rfl
  | cons n rest ih =>
    rw [List.map_cons, List.mapM_cons, laws.int_ofInt, ih]
    rfl

omit u lib in
theorem ofRecipe_of_get {repro : Dict} {d : String} (h : repro.get "detector" = .text d) :
    Detector.ofRecipe repro = detectors.lookup d.toList := by
  rw [Detector.ofRecipe, h]
  rfl

/-- Where the call and the marker are no matter, the validator of the detector sees what the check has
seen. -/
theorem not_rejects (laws : RuntimeLaws) (hmethod : ¬MethodRespelled ctx.endpoint.method)
    (hmarker : ¬EmptyMarker F.reproduction) (hF : Emitted answer ctx c F) :
    ¬DeclarativeRejects answer F.reproduction := by
  obtain ⟨d, -, hd⟩ := (reads_of_emitted hF).1
  have hdetector := ofRecipe_of_get hd
  obtain ⟨name, payload, detector, resp, rfl, hsent, htriggered⟩ | ⟨detector, entries, hheader, rfl, -⟩ :=
    hF
  · rw [DeclarativeRejects, hdetector]
    rw [EmptyMarker, hdetector] at hmarker
    simp only [Dict.get_eq_getD, getD_injected, String.reduceEq, if_true, if_false] at hd hmarker ⊢
    obtain ⟨sigs, rx, rfl, hrx, hfound⟩ | ⟨trigger, rfl, hmem⟩ |
      ⟨token, template, rfl, hrender, hreflected⟩ := htriggered
    · simp only [Dict.getD_recipe_cons, String.reduceEq, if_true, if_false] at hd ⊢
      obtain rfl := String.toList_injective (Json.str.inj hd)
      rintro ⟨rx', resp', hrx', hresent, hnone⟩
      obtain rfl := Except.ok.inj (hrx.symm.trans hrx')
      rw [eq_of_resent laws hmethod hsent hresent, Option.any_some, hfound] at hnone
      cases hnone
    · simp only [Dict.getD_recipe_cons, String.reduceEq, if_true, if_false] at hd ⊢
      obtain rfl := String.toList_injective (Json.str.inj hd)
      rintro ⟨trigger', resp', htrigger, hresent, hmem'⟩
      rw [triggerStatus_ofInt laws] at htrigger
      rw [eq_of_resent laws hmethod hsent hresent, ← Except.ok.inj htrigger,
        List.mem_insertionSort, List.mem_dedup] at hmem'
      exact hmem' hmem
    · simp only [Dict.getD_recipe_cons, String.reduceEq, if_true, if_false] at hd
      obtain rfl := String.toList_injective (Json.str.inj hd)
      rintro ⟨payload', resp', hpayload, hresent, hnot⟩
      obtain rfl := Json.str.inj hpayload
      rw [eq_of_resent laws hmethod hsent hresent] at hnot
      exact hnot ⟨⟨fun hnil ↦ hmarker ⟨rfl, hnil ▸ rfl⟩, hreflected.1⟩, hreflected.2, hrender⟩
  · simp only [_finding, Dict.get_eq_getD, Dict.getD_setItem, List.cons_append, List.nil_append,
      Dict.getD_recipe_cons, String.reduceEq, if_true, if_false] at hd
    obtain rfl := String.toList_injective (Json.str.inj hd)
    rw [DeclarativeRejects, hdetector]
    rcases List.mem_cons.1 hheader with rfl | hheader
    · exact not_false
    · obtain rfl := List.mem_singleton.1 hheader
      exact not_false

theorem isEmpty_of_emitted (hF : Emitted answer ctx c F) : F.reproduction.isEmpty = false := by
  obtain ⟨name, payload, detector, resp, rfl, -⟩ | ⟨detector, entries, -, rfl, -⟩ := hF
  · exact Dict.isEmpty_setItem _ _ _
  · exact Dict.isEmpty_setItem _ _ _

end LoadedCheck

/-! ### The dispatch -/

variable [w : WordTables] {F : RawFinding}

theorem rejects_of_validator {v : Validator} {check_class : String} {repro : Dict}
    {sessions : List AuthSession} (hne : repro.isEmpty = false) (hbola : check_class ≠ "bola")
    (hv : dispatch.lookup check_class = some v) :
    Rejects answer (validate_finding check_class repro sessions) ↔ Rejects answer (v.validate repro) := by
  rw [rejects_validate_finding, and_iff_right hne, dispatched, if_neg hbola, hv]

theorem rejects_of_bola {repro : Dict} {sessions : List AuthSession} (hne : repro.isEmpty = false) :
    Rejects answer (validate_finding "bola" repro sessions) ↔ BolaRejects answer repro sessions := by
  rw [rejects_validate_finding, and_iff_right hne, dispatched, if_pos rfl, rejects_bola]

omit w in
/-- A recipe that is neither of the two forms is not rejected as an injection. -/
theorem not_sqliRejects {c : LoadedCheck} (hF : LoadedCheck.Emitted answer ctx c F) :
    ¬SqliRejects answer F.reproduction := by
  obtain ⟨d, hd, hget⟩ := (LoadedCheck.reads_of_emitted hF).1
  rw [SqliRejects, hget]
  have hother : d.toList ≠ "db_error_signature".toList ∧ d.toList ≠ "boolean_differential".toList := by
    rw [LoadedCheck.recipeDetectors] at hd
    constructor
    · intro h
      rw [String.toList_injective h] at hd
      exact absurd hd (by decide)
    · intro h
      rw [String.toList_injective h] at hd
      exact absurd hd (by decide)
  have hne : (Json.text d).is "db_error_signature".toList = false := decide_eq_false hother.1
  have hne' : (Json.text d).is "boolean_differential".toList = false := decide_eq_false hother.2
  rw [hne, if_neg Bool.false_ne_true, hne']
  exact fun h ↦ Bool.false_ne_true h.1

/-- Declarative checks: the validator of the class, or else that of the detector. -/
theorem rejects_iff_declarative (laws : RuntimeLaws) {c : LoadedCheck}
    (hF : LoadedCheck.Emitted answer ctx c F) :
    Rejects answer (validate_finding F.check_class F.reproduction ctx.sessions) ↔
      DeclarativeDiverges answer ctx F := by
  have hne := LoadedCheck.isEmpty_of_emitted hF
  obtain ⟨⟨d, hd, hget⟩, hobject, hflow⟩ := LoadedCheck.reads_of_emitted hF
  rw [DeclarativeDiverges]
  by_cases hbola : F.check_class = "bola"
  · rw [hbola, rejects_of_bola hne]
    refine iff_of_false (fun ⟨_, hobj, _⟩ ↦ hobj ?_) fun h ↦ h.1 rfl
    rw [hobject]
    rfl
  rw [and_iff_right hbola]
  cases hv : dispatch.lookup F.check_class with
  | some v =>
    rw [rejects_of_validator hne hbola hv]
    cases v with
    | sqli =>
      exact iff_of_false (fun h ↦ not_sqliRejects hF ((rejects_sqli _ _).1 h)) not_false
    | xss => exact rejects_xss _ _
    | open_redirect => exact rejects_open_redirect _ _
    | headers => exact iff_of_false (not_rejects_headers _ _) not_false
    | business_logic => exact rejects_business_logic _ _
    | business_flow => exact iff_of_false (not_rejects_business_flow hflow) not_false
    | prompt_injection => exact rejects_prompt_injection _ _
  | none =>
    have hall : ∀ d ∈ LoadedCheck.recipeDetectors, (Json.text d).truthy = true := by decide
    have htruthy : (F.reproduction.get "detector").truthy = true := hget ▸ hall d hd
    rw [rejects_validate_finding, and_iff_right hne, dispatched, if_neg hbola, hv]
    dsimp only
    rw [if_pos htruthy, rejects_declarative]
    refine ⟨fun h ↦ ⟨?_, h⟩, And.right⟩
    by_contra hsame
    rw [not_or] at hsame
    exact LoadedCheck.not_rejects laws hsame.1 hsame.2 hF h

/-- Built-in checks. -/
theorem rejects_iff_builtin (laws : RuntimeLaws) {b : BuiltinCheck} {findings : List RawFinding}
    (hrun : eval answer (b.run ctx).run = .ok findings) (hF : F ∈ findings) :
    Rejects answer (validate_finding F.check_class F.reproduction ctx.sessions) ↔
      Diverges answer ctx F (.builtin b) := by
  cases b with
  | sqli =>
    have hemitted := SqlInjectionCheck.gives_run findings hrun F hF
    have hform : F.check_class = "sqli" ∧ F.reproduction.isEmpty = false := by
      obtain ⟨name, ⟨_, _, rfl, -⟩ | ⟨_, _, rfl, -⟩⟩ := hemitted
      · exact ⟨rfl, rfl⟩
      · exact ⟨rfl, rfl⟩
    rw [rejects_of_validator (v := .sqli) hform.2 (by rw [hform.1]; decide) (by rw [hform.1]; rfl)]
    refine (rejects_sqli _ _).trans ⟨fun h ↦ ⟨?_, h⟩, And.right⟩
    exact by_contra fun hmethod ↦ SqlInjectionCheck.not_rejects laws hmethod hemitted h
  | xss =>
    have hemitted := ReflectedXssCheck.gives_run findings hrun F hF
    have hform : F.check_class = "xss" ∧ F.reproduction.isEmpty = false := by
      obtain ⟨_, _, _, rfl, -⟩ := hemitted
      exact ⟨rfl, rfl⟩
    rw [rejects_of_validator (v := .xss) hform.2 (by rw [hform.1]; decide) (by rw [hform.1]; rfl)]
    refine (rejects_xss _ _).trans ⟨fun h ↦ ⟨?_, h⟩, And.right⟩
    exact by_contra fun hmethod ↦ ReflectedXssCheck.not_rejects laws hmethod hemitted h
  | bola =>
    have hemitted := BolaCheck.gives_run findings hrun F hF
    have hform : F.check_class = "bola" ∧ F.reproduction.isEmpty = false := by
      obtain ⟨_, _, _, _, _, _, _, _, _, rfl, -⟩ := hemitted
      exact ⟨rfl, rfl⟩
    rw [hform.1, rejects_of_bola hform.2]
    refine ⟨fun h ↦ ⟨?_, h⟩, And.right⟩
    exact by_contra fun hsame ↦ BolaCheck.not_rejects hsame hemitted h
  | open_redirect =>
    have hemitted := OpenRedirectCheck.gives_run findings hrun F hF
    have hform : F.check_class = "open_redirect" ∧ F.reproduction.isEmpty = false := by
      obtain ⟨_, _, rfl, -⟩ := hemitted
      exact ⟨rfl, rfl⟩
    rw [rejects_of_validator (v := .open_redirect) hform.2 (by rw [hform.1]; decide)
      (by rw [hform.1]; rfl)]
    exact iff_of_false (fun h ↦ OpenRedirectCheck.not_rejects laws hemitted
      ((rejects_open_redirect _ _).1 h)) not_false
  | headers =>
    have hemitted := SecurityHeadersCheck.gives_run findings hrun F hF
    obtain ⟨detector, headers, rfl | rfl⟩ := hemitted
    · have hbola : CheckClass.SECURITY_HEADERS.value ≠ "bola" := by decide
      refine (rejects_of_validator (v := .headers) rfl hbola rfl).trans ?_
      exact iff_of_false (not_rejects_headers _ _) not_false
    · have hbola : CheckClass.INFO_DISCLOSURE.value ≠ "bola" := by decide
      refine (rejects_of_validator (v := .headers) rfl hbola rfl).trans ?_
      exact iff_of_false (not_rejects_headers _ _) not_false
  | business_logic =>
    have hemitted := NumericBoundsCheck.gives_run findings hrun F hF
    have hform : F.check_class = "business_logic" ∧ F.reproduction.isEmpty = false := by
      obtain ⟨_, _, _, rfl, -⟩ := hemitted
      exact ⟨rfl, rfl⟩
    rw [rejects_of_validator (v := .business_logic) hform.2 (by rw [hform.1]; decide)
      (by rw [hform.1]; rfl)]
    exact iff_of_false (fun h ↦ NumericBoundsCheck.not_rejects laws hemitted
      ((rejects_business_logic _ _).1 h)) not_false
  | llm_redteam =>
    have hemitted := PromptInjectionCheck.gives_run findings hrun F hF
    have hform : F.check_class = "llm_prompt_injection" ∧ F.reproduction.isEmpty = false := by
      obtain ⟨_, _, _, rfl, -⟩ := hemitted
      exact ⟨rfl, rfl⟩
    rw [rejects_of_validator (v := .prompt_injection) hform.2 (by rw [hform.1]; decide)
      (by rw [hform.1]; rfl)]
    exact iff_of_false (fun h ↦ PromptInjectionCheck.not_rejects hemitted
      ((rejects_prompt_injection _ _).1 h)) not_false

/-- **Agreement.** Against a client that answers by a function, for every check, endpoint and sessions:
an emitted finding is not rejected by the validation of its recipe, exactly outside the four places. -/
theorem agreement_iff (laws : RuntimeLaws) (answer : Query → Answer) (check : DetectingCheck)
    (ctx : CheckContext) (findings : List RawFinding)
    (hrun : eval answer (check.run ctx).run = .ok findings) (F : RawFinding) (hF : F ∈ findings) :
    ¬Rejects answer (validate_finding F.check_class F.reproduction ctx.sessions) ↔
      ¬Diverges answer ctx F check := by
  refine not_congr ?_
  cases check with
  | builtin b => exact rejects_iff_builtin laws hrun hF
  | declarative m => exact rejects_iff_declarative laws (LoadedCheck.gives_run findings hrun F hF)

end

/-! ### An id in a query parameter -/

section

attribute [local instance] asciiTables asciiWords

/-- The integer a rendering stands for. -/
def readInt : Json → Except Raised ℤ
  | .num ('-' :: digits) _ => .ok (-(Text.toNat digits : ℤ))
  | .num digits _ => .ok (Text.toNat digits)
  | _ => .error .ValueError

/-- A library that knows literal patterns and the renderings of integers. -/
@[reducible] def countingLibrary : StandardLibrary := { literalLibrary with int := readInt }

attribute [local instance] countingLibrary

theorem toNat_toDigits (n : ℕ) : Text.toNat (Nat.toDigits 10 n) = n := by
  rw [Text.toNat, ← Nat.ofDigitChars_eq_foldl]
  exact Nat.ofDigitChars_toDigits (by decide) (by decide)

theorem readInt_ofInt (n : ℤ) : readInt (LoadedCheck.ofInt n) = .ok n := by
  cases n with
  | ofNat m =>
    have htext : (toString (Int.ofNat m)).toList = Nat.toDigits 10 m := Nat.toList_repr
    rw [LoadedCheck.ofInt, htext]
    have hparse := toNat_toDigits m
    cases hdigits : Nat.toDigits 10 m with
    | nil => exact absurd hdigits Nat.toDigits_ne_nil
    | cons c t =>
      have hdigit : c.isDigit = true :=
        Nat.isDigit_of_mem_toDigits (b := 10) (n := m) (by decide) (by decide)
          (hdigits ▸ List.mem_cons_self)
      rw [hdigits] at hparse
      rw [readInt, hparse]
      · rfl
      · rintro t' ht'
        obtain ⟨rfl, -⟩ := List.cons.inj ht'
        exact absurd hdigit (by decide)
  | negSucc m =>
    have htext : (toString (Int.negSucc m)).toList = '-' :: Nat.toDigits 10 (m + 1) := by
      show ("-" ++ (m + 1).repr).toList = _
      rw [String.toList_append, Nat.toList_repr]
      rfl
    rw [LoadedCheck.ofInt, htext, readInt, toNat_toDigits]
    rfl

theorem sampleLaws : RuntimeLaws where
  lower_ascii _ _ := rfl
  upper_ascii _ _ := rfl
  lower_lower t := by
    show (t.map Char.toLower).map Char.toLower = t.map Char.toLower
    rw [List.map_map]
    refine List.map_congr_left fun c _ ↦ ?_
    exact Char.toLower_idem c
  int_ofInt := readInt_ofInt

/-- A target that returns an order to any session that names one. -/
def ordersTarget (query : Query) : Answer :=
  let resp (status : ℕ) (text : String) : Answer := .ok {
    status_code := status
    headers := []
    text := text.toList
    url := "https://app.example/orders".toList
    request_method := query.method
    request_headers := []
    request_body := none }
  match query.params, query.headers with
  | some (_ :: _), some _ => resp 200 "order 42"
  | some (_ :: _), none => resp 401 "log in"
  | _, _ => resp 404 "which order?"

def ordersContext : CheckContext where
  endpoint := {
    method := "GET".toList
    url := "https://app.example/orders".toList
    path_template := "/orders".toList
    parameters := [Dict.recipe [("name", .text "order_id"), ("in", .text "query")]] }
  sessions := [
    { role_name := "alice".toList
      headers := [(.text "Authorization", .text "Bearer a")]
      owns_object_ids := [.text "7"] },
    { role_name := "bob".toList
      headers := [(.text "Authorization", .text "Bearer b")]
      owns_object_ids := [.text "42"] }]
  tokens _ := ⟨"0123456789".toList, by decide, fun _ ↦ List.mem_append_left "abcdef".toList⟩

/-- The check sends the id as a parameter, the recipe has only the URL. -/
theorem ordersFinding_rejected : ∃ F,
    eval ordersTarget (DetectingCheck.run (.builtin .bola) ordersContext).run = .ok [F] ∧
      Rejects ordersTarget (validate_finding F.check_class F.reproduction ordersContext.sessions) :=
  ⟨_, rfl, _, rfl, rfl⟩

theorem agreement_iff_orders : ∃ F,
    eval ordersTarget (DetectingCheck.run (.builtin .bola) ordersContext).run = .ok [F] ∧
      (¬Rejects ordersTarget
          (validate_finding F.check_class F.reproduction ordersContext.sessions) ↔
        ¬Diverges ordersTarget ordersContext F (.builtin .bola)) :=
  ⟨_, rfl, agreement_iff sampleLaws ordersTarget (.builtin .bola) ordersContext _ rfl _
    List.mem_cons_self⟩

end

end Checks

end Sentrik
