import Sentrik.Checks.Declarative
import Sentrik.Services.Rejections

/-!
# What an emitted finding means

A check against a client that answers by a function: each finding it emits is one of its own forms, and
the client has given the answers the check takes for that finding. One statement for each check
(`gives_…`), read off its program.
-/

namespace Sentrik

open Interaction

namespace Checks

/-! ### Calls of a check -/

/-- What a check receives when it sends a value in a parameter. -/
def Sent (answer : Query → Answer) (ctx : CheckContext) (name value : Json) (resp : GuardedResponse) :
    Prop :=
  ∃ overrides, override name value = .ok overrides ∧
    answer (ctx.endpoint.probe overrides none) = .ok resp

/-- What a check receives when it fetches the endpoint with a value in a parameter. -/
def Got (answer : Query → Answer) (ctx : CheckContext) (name : Json) (value : Text)
    (resp : GuardedResponse) : Prop :=
  Validation.Fetched answer (.str ctx.endpoint.url) name (.str value) 3 resp

variable {answer : Query → Answer} {ctx : CheckContext}

theorem gives_send {name value : Json} {post : GuardedResponse → Prop}
    (h : ∀ resp, Sent answer ctx name value resp → post resp) :
    Gives answer (ctx._send (override name value) none) post := by
  rw [CheckContext._send, gives_bind, gives_ofExcept]
  intro overrides ho
  exact gives_request.2 fun resp hresp ↦ h resp ⟨overrides, ho, hresp⟩

theorem gives_get {name : Json} {value : Text} {post : GuardedResponse → Prop}
    (h : ∀ resp, Got answer ctx name value resp → post resp) :
    Gives answer (ctx._get name value) post := by
  rw [CheckContext._get, gives_bind, gives_ofExcept]
  intro overrides ho
  exact gives_request.2 fun resp hresp ↦ h resp ⟨overrides, ho, hresp⟩

theorem gives_reached {α : Type} {m : Program α} {post : Option α → Prop}
    (h : Gives answer m fun a ↦ post (some a)) (hnone : post none) :
    Gives answer (reached m) post := by
  rw [reached, gives_bind, gives_attempt]
  split
  next a ha => exact gives_pure.2 (h a ha)
  next => exact gives_pure.2 hnone
  next => exact gives_throw

/-! ### Reflected scripts -/

section

variable [u : UnicodeTables]

/-- The marker came back unescaped in a renderable document. -/
def ReflectedXssCheck.Emitted (answer : Query → Answer) (ctx : CheckContext) (F : RawFinding) : Prop :=
  ∃ name, ∃ token : Token, ∃ resp, F = _finding ctx name token.text ∧
    Sent answer ctx name (.str (marker token.text)) resp ∧
    renderable_html_context resp.status_code (u.lower (resp.header "content-type")) = true ∧
    Text.hasInfix ("<szx".toList ++ token.text ++ ['>']) resp.text = true ∧
    Text.hasInfix ("&lt;szx".toList ++ token.text ++ "&gt;".toList) resp.text = false

theorem ReflectedXssCheck.gives_run : Gives answer (ReflectedXssCheck.run ctx) fun findings ↦
    ∀ F ∈ findings, ReflectedXssCheck.Emitted answer ctx F := by
  refine gives_collect fun p _ ↦ ?_
  rw [_probe, gives_bind, gives_ofExcept]
  intro name _
  rw [gives_bind]
  refine gives_reached (gives_send fun resp hresp ↦ ?_) (gives_pure.2 nofun)
  dsimp only
  split
  · exact gives_pure.2 nofun
  next hrender =>
  split
  next hfound =>
    rw [Bool.and_eq_true, Bool.not_eq_true'] at hfound
    refine gives_pure.2 fun F hF ↦ ⟨name, ctx.tokens p.2, resp, (Option.some.inj hF).symm, hresp, ?_,
      hfound⟩
    simpa using hrender
  · exact gives_pure.2 nofun

/-! ### Redirects -/

/-- A redirect to the canary host was blocked or seen. -/
def OpenRedirectCheck.Emitted (answer : Query → Answer) (ctx : CheckContext) (F : RawFinding) : Prop :=
  ∃ name overrides, F = _finding ctx name ∧ override name (.str CANARY) = .ok overrides ∧
    match answer { url := .str ctx.endpoint.url, params := some overrides, max_redirects := 0 } with
    | .ok resp => resp.header "location" ≠ [] ∧
        hostnameOf (.str (resp.header "location")) = .ok (some CANARY_HOST)
    | .error (.client (.ScopeViolation ..)) => True
    | .error _ => False

theorem OpenRedirectCheck.gives_run : Gives answer (OpenRedirectCheck.run ctx) fun findings ↦
    ∀ F ∈ findings, OpenRedirectCheck.Emitted answer ctx F := by
  rw [OpenRedirectCheck.run, gives_bind, gives_ofExcept]
  intro candidates _
  refine gives_collect fun param _ ↦ ?_
  rw [_probe, gives_bind, gives_ofExcept]
  intro name _
  rw [gives_bind, gives_ofExcept]
  intro overrides ho
  rw [gives_bind, gives_attempt, eval_run_request]
  split
  next hanswer =>
    refine gives_pure.2 fun F hF ↦ ⟨name, overrides, (Option.some.inj hF).symm, ho, ?_⟩
    rw [hanswer]
    exact trivial
  · exact gives_pure.2 nofun
  · exact gives_throw
  next resp hanswer =>
  dsimp only
  split
  · exact gives_pure.2 nofun
  next hlocation =>
  rw [gives_bind, gives_ofExcept]
  intro host hhost
  split
  next hcanary =>
    refine gives_pure.2 fun F hF ↦ ⟨name, overrides, (Option.some.inj hF).symm, ho, ?_⟩
    rw [hanswer]
    exact ⟨hlocation, hcanary ▸ hhost⟩
  · exact gives_pure.2 nofun

/-! ### Headers -/

/-- A finding of either header class. -/
def SecurityHeadersCheck.Emitted (ctx : CheckContext) (F : RawFinding) : Prop :=
  ∃ detector headers, F = _finding ctx .SECURITY_HEADERS detector headers ∨
    F = _finding ctx .INFO_DISCLOSURE detector headers

theorem SecurityHeadersCheck.gives_run : Gives answer (SecurityHeadersCheck.run ctx) fun findings ↦
    ∀ F ∈ findings, SecurityHeadersCheck.Emitted ctx F := by
  rw [SecurityHeadersCheck.run]
  split
  · exact gives_pure.2 nofun
  rw [gives_bind]
  refine gives_reached (gives_request.2 fun resp _ ↦ ?_) (gives_pure.2 nofun)
  refine gives_pure.2 fun F hF ↦ ?_
  rcases List.mem_append.1 hF with hF | hF
  · split at hF
    · cases hF
    · exact ⟨_, _, .inl (List.mem_singleton.1 hF)⟩
  · split at hF
    · cases hF
    · exact ⟨_, _, .inr (List.mem_singleton.1 hF)⟩

section

variable [lib : StandardLibrary]

/-! ### Objects of other accounts -/

/-- The attacker's session received the object. -/
def BolaCheck.Emitted (answer : Query → Answer) (ctx : CheckContext) (F : RawFinding) : Prop :=
  ∃ attacker ∈ ctx.sessions, ∃ victim victim_obj url params resp, attacker.expired = false ∧
    _build_target ctx victim_obj = .ok (url, params) ∧ F = _finding attacker victim victim_obj url ∧
    answer { url := .str url, headers := some attacker.headers, params := some params } = .ok resp ∧
    resp.status_code = 200 ∧ Text.hasInfix victim_obj resp.text = true

theorem BolaCheck.gives_attempt {attacker victim : AuthSession} {victim_obj : Text}
    (hmem : attacker ∈ ctx.sessions) (hactive : attacker.expired = false) :
    Gives answer (_attempt ctx attacker victim victim_obj) fun x ↦
      ∀ F ∈ x, BolaCheck.Emitted answer ctx F := by
  rw [_attempt, gives_bind, gives_ofExcept]
  rintro ⟨url, params⟩ htarget
  rw [gives_bind]
  refine gives_reached (gives_request.2 fun resp hresp ↦ ?_) (gives_pure.2 nofun)
  dsimp only
  split
  next hfound =>
    have hemitted : ∀ F ∈ some (_finding attacker victim victim_obj url),
        BolaCheck.Emitted answer ctx F := fun F hF ↦
      ⟨attacker, hmem, victim, victim_obj, url, params, resp, hactive, htarget,
        (Option.some.inj hF).symm, hresp, hfound⟩
    rw [gives_bind]
    refine gives_reached (gives_request.2 fun anon _ ↦ ?_) (gives_pure.2 hemitted)
    dsimp only
    split
    · exact gives_pure.2 nofun
    · exact gives_pure.2 hemitted
  · exact gives_pure.2 nofun

theorem BolaCheck.gives_run : Gives answer (BolaCheck.run ctx) fun findings ↦
    ∀ F ∈ findings, BolaCheck.Emitted answer ctx F := by
  rw [BolaCheck.run]
  split
  · exact gives_pure.2 nofun
  rw [gives_bind]
  refine (gives_firstHit fun pair hpair ↦ ?_).mono fun x hx ↦ gives_pure.2 fun F hF ↦
    hx F (Option.mem_toList.1 hF)
  obtain ⟨attacker, hattacker, victim, -, rfl⟩ : ∃ attacker ∈ (ctx.sessions.filter (!·.expired)).zipIdx,
      ∃ victim ∈ (ctx.sessions.filter (!·.expired)).zipIdx, (attacker, victim) = pair := by
    simpa only [List.mem_flatMap, List.mem_map] using hpair
  have hactive := List.mem_filter.1 (List.fst_mem_of_mem_zipIdx hattacker)
  rw [_pair]
  split
  · exact gives_pure.2 nofun
  split
  · exact gives_pure.2 nofun
  · exact gives_attempt hactive.1 (by simpa using hactive.2)

/-! ### Injection -/

/-- An error of a database came back, or the two conditions made a difference. -/
def SqlInjectionCheck.Emitted (answer : Query → Answer) (ctx : CheckContext) (F : RawFinding) : Prop :=
  ∃ name,
    (∃ payload resp, F = _error_finding ctx name payload ∧
      Sent answer ctx name (.str (base_val ++ payload)) resp ∧ errorSearch resp.text = true) ∨
    ∃ r_true r_false, F = _boolean_finding ctx name ∧
      Sent answer ctx name (.str TRUE_PAYLOAD) r_true ∧
      Sent answer ctx name (.str FALSE_PAYLOAD) r_false ∧
      (r_true.status_code ≠ r_false.status_code ∨ lenDiffers r_true.text r_false.text (3 / 10) = true)

omit u lib in
/-- What the check takes for a difference is one in the status or the length. -/
theorem SqlInjectionCheck.differs_of_boolean_differs {baseline r_true r_false : GuardedResponse}
    (h : _boolean_differs baseline r_true r_false = true) :
    r_true.status_code ≠ r_false.status_code ∨ lenDiffers r_true.text r_false.text (3 / 10) = true := by
  rw [_boolean_differs] at h
  split at h
  next hstatus => exact .inl hstatus
  next =>
    right
    rw [lenDiffers]
    dsimp only at h ⊢
    split
    next hempty =>
      rw [if_pos hempty] at h
      cases h
    next hempty =>
      rw [if_neg hempty, Bool.and_eq_true] at h
      exact h.1

omit u in
theorem SqlInjectionCheck.gives_run : Gives answer (SqlInjectionCheck.run ctx) fun findings ↦
    ∀ F ∈ findings, SqlInjectionCheck.Emitted answer ctx F := by
  refine gives_collect fun param _ ↦ ?_
  rw [_probe_param, gives_bind, gives_ofExcept]
  intro name _
  rw [gives_bind]
  refine gives_reached (gives_send fun baseline _ ↦ ?_) (gives_pure.2 nofun)
  rw [gives_bind]
  have herror : Gives answer (firstHit (_error_probe ctx name) ERROR_PAYLOADS) fun x ↦
      ∀ F ∈ x, SqlInjectionCheck.Emitted answer ctx F := by
    refine gives_firstHit fun payload _ ↦ ?_
    rw [_error_probe, gives_bind]
    refine gives_reached (gives_send fun resp hresp ↦ ?_) (gives_pure.2 nofun)
    dsimp only
    split
    next hfound => exact gives_pure.2 fun F hF ↦
      ⟨name, .inl ⟨payload, resp, (Option.some.inj hF).symm, hresp, hfound⟩⟩
    · exact gives_pure.2 nofun
  refine herror.mono fun x hx ↦ ?_
  cases x with
  | some finding => exact gives_pure.2 hx
  | none =>
    dsimp only
    rw [_boolean_probe, gives_bind]
    refine gives_reached ?_ (gives_pure.2 nofun)
    rw [gives_bind]
    refine gives_send fun r_true htrue ↦ ?_
    rw [gives_bind]
    refine gives_send fun r_false hfalse ↦ gives_pure.2 ?_
    dsimp only
    split
    next hfound => exact gives_pure.2 fun F hF ↦ ⟨name, .inr ⟨r_true, r_false,
      (Option.some.inj hF).symm, htrue, hfalse, differs_of_boolean_differs hfound⟩⟩
    · exact gives_pure.2 nofun

/-! ### Numeric bounds -/

/-- The value out of range was accepted. -/
def NumericBoundsCheck.Emitted (answer : Query → Answer) (ctx : CheckContext) (F : RawFinding) : Prop :=
  ∃ name value resp, F = _finding ctx name value ∧ Got answer ctx name value resp ∧
    resp.status_code < 300

theorem NumericBoundsCheck.gives_run [WordTables] :
    Gives answer (NumericBoundsCheck.run ctx) fun findings ↦
      ∀ F ∈ findings, NumericBoundsCheck.Emitted answer ctx F := by
  rw [NumericBoundsCheck.run, gives_bind, gives_ofExcept]
  intro candidates _
  refine gives_collect fun param _ ↦ ?_
  rw [_probe_param, gives_bind, gives_ofExcept]
  intro name _
  rw [gives_bind]
  refine gives_reached ?_ (gives_pure.2 nofun)
  rw [gives_bind]
  refine gives_get fun baseline _ ↦ ?_
  split
  · exact gives_pure.2 (gives_pure.2 nofun)
  rw [gives_bind]
  refine gives_get fun typed _ ↦ ?_
  split
  · exact gives_pure.2 (gives_pure.2 nofun)
  refine (gives_firstHit fun value _ ↦ ?_).mono fun x hx ↦ gives_pure.2 hx
  rw [_range_probe, gives_bind]
  refine gives_get fun resp hresp ↦ ?_
  split
  next hfound => exact gives_pure.2 fun F hF ↦
    ⟨name, value, resp, (Option.some.inj hF).symm, hresp, hfound.1.2⟩
  · exact gives_pure.2 nofun

/-! ### Prompt injection -/

/-- The injection leaked what the baseline did not. -/
def PromptInjectionCheck.Emitted (answer : Query → Answer) (ctx : CheckContext) (F : RawFinding) :
    Prop :=
  ∃ param baseline injection, F = _finding ctx param ∧ Got answer ctx param BASELINE_PROBE baseline ∧
    Got answer ctx param INJECTION_PROBE injection ∧ leakedMarkers injection.text baseline.text ≠ []

theorem PromptInjectionCheck.gives_run : Gives answer (PromptInjectionCheck.run ctx) fun findings ↦
    ∀ F ∈ findings, PromptInjectionCheck.Emitted answer ctx F := by
  rw [PromptInjectionCheck.run, gives_bind, gives_ofExcept]
  intro found _
  split
  · exact gives_pure.2 nofun
  next param _ =>
  split
  · exact gives_pure.2 nofun
  rw [gives_bind]
  refine gives_reached ?_ (gives_pure.2 nofun)
  rw [gives_bind]
  refine gives_get fun baseline hbaseline ↦ ?_
  rw [gives_bind]
  refine gives_get fun injection hinjection ↦ gives_pure.2 ?_
  dsimp only
  split
  · exact gives_pure.2 nofun
  next hleaked => exact gives_pure.2 fun F hF ↦
    ⟨param, baseline, injection, List.mem_singleton.1 hF, hbaseline, hinjection, hleaked⟩

/-! ### Declarative checks -/

namespace LoadedCheck

variable {c : LoadedCheck}

/-- A response that the detector takes for a finding. -/
def Triggered (detector : List (String × Json)) (payload : Text) (resp : GuardedResponse) : Prop :=
  (∃ sigs rx, detector = [("detector", .text "error_signature"), ("signatures", .arr sigs)] ∧
    compileSignatures (.arr sigs) = .ok (some rx) ∧ lib.search rx resp.text = true) ∨
  (∃ trigger : List ℤ, detector = [("detector", .text "status_code"),
      ("trigger_status", .arr ((trigger.dedup.insertionSort (· ≤ ·)).map ofInt))] ∧
    (resp.status_code : ℤ) ∈ trigger) ∨
  ∃ (token : Token) (template : Json), detector = [("marker", .str token.text),
      ("marker_template", template), ("detector", .text "reflection")] ∧
    renderable_html_context resp.status_code (resp.header "content-type") = true ∧
    Text.hasInfix payload resp.text = true ∧
    (escapeAngles payload = payload ∨ Text.hasInfix (escapeAngles payload) resp.text = false)

/-- A payload was answered by such a response; or it is a finding about headers. -/
def Emitted (answer : Query → Answer) (ctx : CheckContext) (c : LoadedCheck) (F : RawFinding) : Prop :=
  (∃ name payload detector resp, F = c._injected ctx name payload detector ∧
    Sent answer ctx name (.str payload) resp ∧ Triggered detector payload resp) ∨
  ∃ detector entries, detector ∈ ["header_presence", "header_reflects"] ∧
    F = c._finding (Dict.recipe ([("method", .text "GET"), ("url", .str ctx.endpoint.url),
      ("detector", .text detector)] ++ entries)) ∧
    ∀ e ∈ entries, e.1 ∈ ["headers", "want_present", "request_header", "header_value",
      "response_header"]

theorem gives_inject {payloads : List Text} {triggers : GuardedResponse → Bool}
    {detector : List (String × Json)}
    (h : ∀ payload resp, triggers resp = true → Triggered detector payload resp) :
    Gives answer (c.inject ctx payloads triggers detector) fun findings ↦
      ∀ F ∈ findings, Emitted answer ctx c F := by
  rw [inject, gives_bind]
  refine (gives_firstHit fun param _ ↦ ?_).mono fun x hx ↦ gives_pure.2 fun F hF ↦
    hx F (Option.mem_toList.1 hF)
  rw [gives_bind, gives_ofExcept]
  intro name _
  refine gives_firstHit fun payload _ ↦ ?_
  rw [gives_bind]
  refine gives_send fun resp hresp ↦ ?_
  split
  next hfound =>
    refine gives_pure.2 fun F hF ↦ .inl ?_
    exact ⟨name, payload, detector, resp, (Option.some.inj hF).symm, hresp, h payload resp hfound⟩
  · exact gives_pure.2 nofun

omit u in
/-- The items of the signatures compile to what the signatures compile to. -/
theorem compileSignatures_items {sigs : Json} {items : List Json} {rx : Text}
    (h : compileSignatures sigs = .ok (some rx)) (hitems : sigs.iter = .ok items) :
    compileSignatures (.arr items) = .ok (some rx) := by
  rw [compileSignatures] at h
  split at h
  next htruthy =>
    have hne : (Json.arr items).truthy = true := by
      cases sigs with
      | null => cases htruthy
      | bool _ => cases hitems
      | num _ _ => cases hitems
      | str t =>
        rw [← Except.ok.inj hitems]
        cases t with
        | nil => cases htruthy
        | cons _ _ => rfl
      | arr l =>
        rw [← Except.ok.inj hitems]
        exact htruthy
      | obj l =>
        rw [← Except.ok.inj hitems]
        cases l with
        | nil => cases htruthy
        | cons _ _ => rfl
    have htexts : (Json.arr items).texts = sigs.texts := by
      rw [Json.texts, Json.texts, hitems, Json.iter]
    rw [compileSignatures, if_pos hne, htexts]
    exact h
  next => cases h

theorem gives_error_signature : Gives answer (c._error_signature ctx) fun findings ↦
    ∀ F ∈ findings, Emitted answer ctx c F := by
  rw [_error_signature, gives_bind, gives_ofExcept]
  intro payloads _
  rw [gives_bind, gives_ofExcept]
  intro compiled hcompiled
  split
  · exact gives_pure.2 nofun
  next rx =>
  rw [gives_bind, gives_ofExcept]
  intro items hitems
  exact gives_inject fun _ resp hfound ↦
    .inl ⟨items, rx, rfl, compileSignatures_items hcompiled hitems, hfound⟩

theorem gives_status_code : Gives answer (c._status_code ctx) fun findings ↦
    ∀ F ∈ findings, Emitted answer ctx c F := by
  rw [_status_code, gives_bind, gives_ofExcept]
  intro payloads _
  rw [gives_bind, gives_ofExcept]
  intro trigger _
  exact gives_inject fun _ resp hfound ↦ .inr (.inl ⟨trigger, rfl, List.contains_iff_mem.1 hfound⟩)

theorem gives_reflection : Gives answer (c._reflection ctx) fun findings ↦
    ∀ F ∈ findings, Emitted answer ctx c F := by
  rw [_reflection, gives_bind]
  refine (gives_firstHit fun param _ ↦ ?_).mono fun x hx ↦ gives_pure.2 fun F hF ↦
    hx F (Option.mem_toList.1 hF)
  rw [gives_bind, gives_ofExcept]
  intro name _
  dsimp only
  rw [gives_bind, gives_ofExcept]
  intro marker _
  rw [gives_bind]
  refine gives_send fun resp hresp ↦ ?_
  split
  · exact gives_pure.2 nofun
  next hrender =>
  split
  next hfound =>
    refine gives_pure.2 fun F hF ↦ .inl ?_
    exact ⟨name, marker, _, resp, (Option.some.inj hF).symm, hresp,
      .inr (.inr ⟨ctx.tokens param.2, _, rfl, by simpa using hrender, hfound⟩)⟩
  · exact gives_pure.2 nofun

theorem gives_header_presence (want_present : Bool) :
    Gives answer (c._header_presence ctx want_present) fun findings ↦
      ∀ F ∈ findings, Emitted answer ctx c F := by
  rw [_header_presence, gives_bind, gives_ofExcept]
  intro items _
  rw [gives_bind, gives_ofExcept]
  intro headers _
  split
  · exact gives_pure.2 nofun
  rw [gives_bind, CheckContext._send, gives_bind]
  refine gives_ofExcept.2 fun overrides _ ↦ gives_request.2 fun resp _ ↦ ?_
  dsimp only
  split
  · exact gives_pure.2 nofun
  · refine gives_pure.2 fun F hF ↦ .inr ?_
    exact ⟨"header_presence", _, by decide, List.mem_singleton.1 hF, by simp⟩

theorem gives_header_reflects : Gives answer (c._header_reflects ctx) fun findings ↦
    ∀ F ∈ findings, Emitted answer ctx c F := by
  rw [_header_reflects]
  split
  · exact gives_pure.2 nofun
  rw [gives_bind, gives_ofExcept]
  intro headers _
  rw [gives_bind, CheckContext._send, gives_bind]
  refine gives_ofExcept.2 fun overrides _ ↦ gives_request.2 fun resp _ ↦ ?_
  rw [gives_bind, gives_ofExcept]
  intro reflected _
  split
  · refine gives_pure.2 fun F hF ↦ .inr ?_
    exact ⟨"header_reflects", _, by decide, List.mem_singleton.1 hF, by simp⟩
  · exact gives_pure.2 nofun

theorem gives_run : Gives answer (c.run ctx) fun findings ↦
    ∀ F ∈ findings, Emitted answer ctx c F := by
  rw [LoadedCheck.run]
  split
  · exact gives_pure.2 nofun
  next type _ =>
  rw [gives_bind]
  refine gives_reached ?_ (gives_pure.2 nofun)
  have hdetect : Gives answer (c.detect ctx type) fun findings ↦
      ∀ F ∈ findings, Emitted answer ctx c F := by
    cases type with
    | error_signature => exact gives_error_signature
    | reflection => exact gives_reflection
    | status_code => exact gives_status_code
    | header_missing => exact gives_header_presence false
    | header_present => exact gives_header_presence true
    | header_reflects => exact gives_header_reflects
  exact hdetect.mono fun findings h ↦ gives_pure.2 h

end LoadedCheck

end

end

end Checks

end Sentrik
