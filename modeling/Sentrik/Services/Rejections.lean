import Sentrik.Services.Validation

/-!
# What a validator rejects

Against a client that answers by a function, each validator rejects a recipe under a condition on the
answers to the calls it makes for it. The conditions are stated here without the programs; the theorems
say that they are exact (`rejects_…`).
-/

namespace Sentrik

open Interaction

namespace Validation

section

variable [u : UnicodeTables]

/-! ### Sending again -/

/-- The call by which a validator sends overrides, unless the method is not a text. -/
def resend (method url : Json) (overrides : Overrides) : Option Query :=
  match method.or (.text "GET") with
  | .str name =>
    if u.upper name = "GET".toList then some { url, params := some overrides }
    else some { method := name, url, data := some overrides }
  | _ => none

/-- What a validator receives when it sends a value in a parameter. -/
def Resent (answer : Query → Answer) (method url param value : Json) (resp : GuardedResponse) : Prop :=
  ∃ overrides query, override param value = .ok overrides ∧ resend method url overrides = some query ∧
    answer query = .ok resp

theorem yields_resent {answer : Query → Answer} {method url param value : Json}
    {post : GuardedResponse → Prop} :
    Yields answer (_send method url (override param value)) post ↔
      ∃ resp, Resent answer method url param value resp ∧ post resp := by
  rw [_send, sendOverrides, yields_bind, yields_ofExcept]
  constructor
  · rintro ⟨overrides, ho, hsent⟩
    split at hsent
    next name hname =>
      split at hsent
      next hget =>
        obtain ⟨resp, hresp, hpost⟩ := yields_request.1 hsent
        exact ⟨resp, ⟨overrides, _, ho, by rw [resend, hname]; exact if_pos hget, hresp⟩, hpost⟩
      next hget =>
        obtain ⟨resp, hresp, hpost⟩ := yields_request.1 hsent
        exact ⟨resp, ⟨overrides, _, ho, by rw [resend, hname]; exact if_neg hget, hresp⟩, hpost⟩
    next => exact (yields_throw.1 hsent).elim
  · rintro ⟨resp, ⟨overrides, query, ho, hquery, hresp⟩, hpost⟩
    refine ⟨overrides, ho, ?_⟩
    rw [resend] at hquery
    cases hname : method.or (.text "GET") with
    | str name =>
      rw [hname] at hquery
      dsimp only at hquery ⊢
      split at hquery
      next hget =>
        rw [if_pos hget, Option.some.inj hquery]
        exact yields_request.2 ⟨resp, hresp, hpost⟩
      next hget =>
        rw [if_neg hget, Option.some.inj hquery]
        exact yields_request.2 ⟨resp, hresp, hpost⟩
    | _ =>
      rw [hname] at hquery
      cases hquery

/-- What is received by a call with the value in a parameter. -/
def Fetched (answer : Query → Answer) (url param value : Json) (max_redirects : ℕ)
    (resp : GuardedResponse) : Prop :=
  ∃ overrides, override param value = .ok overrides ∧
    answer { url, params := some overrides, max_redirects } = .ok resp

omit u in
theorem yields_fetched {α : Type} {answer : Query → Answer} {url param value : Json} {max_redirects : ℕ}
    {next : GuardedResponse → Program α} {post : α → Prop} :
    Yields answer (do
      let overrides ← MonadExcept.ofExcept (override param value)
      let resp ← request { url, params := some overrides, max_redirects }
      next resp) post ↔
        ∃ resp, Fetched answer url param value max_redirects resp ∧ Yields answer (next resp) post := by
  rw [yields_bind, yields_ofExcept]
  constructor
  · rintro ⟨overrides, ho, h⟩
    rw [yields_bind] at h
    obtain ⟨resp, hresp, hnext⟩ := yields_request.1 h
    exact ⟨resp, ⟨overrides, ho, hresp⟩, hnext⟩
  · rintro ⟨resp, ⟨overrides, ho, hresp⟩, hnext⟩
    refine ⟨overrides, ho, ?_⟩
    rw [yields_bind]
    exact yields_request.2 ⟨resp, hresp, hnext⟩

/-! ### Conditions -/

/-- The marker is not reflected in the response, or not where a browser would render it. -/
def XssRejects (answer : Query → Answer) (repro : Dict) : Prop :=
  let payload := repro.getD "payload" (.text "")
  let marker := repro.getD "marker" (.text "")
  ∃ resp reflected,
    Resent answer (repro.getD "method" (.text "GET")) (repro.get "url") (repro.get "param") payload resp ∧
    reflectedIn (rawMarker marker payload) (escapedMarker marker) resp.text = .ok reflected ∧
    ¬(reflected = true ∧ renderable_html_context resp.status_code (resp.header "content-type") = true)

/-- There is no location, or its host is another one than that of the payload. -/
def RedirectRejects (answer : Query → Answer) (repro : Dict) : Prop :=
  let payload := repro.getD "payload" (.text "")
  ∃ resp, Fetched answer (repro.get "url") (repro.get "param") payload 0 resp ∧
    pointsTo (resp.header "location") payload = .ok false

/-- The object is not returned without a session, and the first active session of the role is
refused. -/
def BolaRejects (answer : Query → Answer) (repro : Dict) (sessions : List AuthSession) : Prop :=
  let url := repro.get "url"
  let obj := (repro.getD "object_id" (.text "")).toText
  url.truthy = true ∧ obj ≠ [] ∧
    (∃ anon, answer { url } = .ok anon ∧
      ¬(anon.status_code = 200 ∧ Text.hasInfix obj anon.text = true)) ∧
    ∃ attacker resp,
      attackerSession sessions (repro.getD "attacker_role" (.text "")).toText = some attacker ∧
      answer { url, headers := some attacker.headers } = .ok resp ∧ resp.status_code ∈ [401, 403, 404]

/-- The baseline value is accepted and the other one is refused. -/
def BusinessLogicRejects (answer : Query → Answer) (repro : Dict) : Prop :=
  let url := repro.get "url"
  let param := repro.get "param"
  let method := .str (u.upper (repro.getD "method" (.text "GET")).toText)
  url.truthy = true ∧ param.truthy = true ∧ ∃ baseline probe,
    Resent answer method url param (.str (repro.getD "baseline_value" (.text "1")).toText) baseline ∧
    Resent answer method url param (.str (repro.getD "payload" (.text "")).toText) probe ∧
    (200 ≤ baseline.status_code ∧ baseline.status_code < 300) ∧ 400 ≤ probe.status_code

/-- The injection leaks nothing that the baseline does not. -/
def PromptRejects (answer : Query → Answer) (repro : Dict) : Prop :=
  let url := repro.get "url"
  let param := repro.get "param"
  url.truthy = true ∧ param.truthy = true ∧ ∃ baseline injection,
    Fetched answer url param (repro.getD "baseline" (.text "hello")) 3 baseline ∧
    Fetched answer url param (repro.getD "payload" (.text "")) 3 injection ∧
    leakedMarkers injection.text baseline.text = []

/-- Neither the payload of the recipe nor the other one shows an error of a database; or the two
conditions make no difference. -/
def SqliRejects [lib : StandardLibrary] (answer : Query → Answer) (repro : Dict) : Prop :=
  let sent := Resent answer (repro.getD "method" (.text "GET")) (repro.get "url") (repro.get "param")
  if (repro.get "detector").is "db_error_signature".toList then
    ∃ resp resp2, sent (repro.getD "payload" (.text "'")) resp ∧ sent (.text "'\"") resp2 ∧
      errorSearch resp.text = false ∧ errorSearch resp2.text = false
  else
    (repro.get "detector").is "boolean_differential".toList = true ∧ ∃ baseline r_true r_false,
      sent (.text "1") baseline ∧ sent (repro.get "true_payload") r_true ∧
      sent (repro.get "false_payload") r_false ∧ r_true.status_code = r_false.status_code ∧
      lenDiffers r_true.text r_false.text (3 / 10) = false

/-- The condition of the detector does not hold of the response. -/
def DeclarativeRejects [lib : StandardLibrary] (answer : Query → Answer) (repro : Dict) : Prop :=
  let sent := Resent answer (repro.getD "method" (.text "GET")) (repro.get "url") (repro.get "param")
  match Detector.ofRecipe repro with
  | some .status_code => ∃ trigger resp,
      triggerStatus (repro.getD "trigger_status" (.arr [.num "500".toList false])) = .ok trigger ∧
      sent (repro.getD "payload" (.text "'")) resp ∧ (resp.status_code : ℤ) ∉ trigger
  | some .error_signature => ∃ rx resp,
      compileSignatures (repro.getD "signatures" (.arr [])) = .ok rx ∧
      sent (repro.getD "payload" (.text "'")) resp ∧ rx.any (lib.search · resp.text) = false
  | some .reflection => ∃ payload resp, repro.getD "payload" (.text "") = .str payload ∧
      sent (.str payload) resp ∧
      ¬((payload ≠ [] ∧ Text.hasInfix payload resp.text = true) ∧
        (escapeAngles payload = payload ∨ Text.hasInfix (escapeAngles payload) resp.text = false) ∧
        renderable_html_context resp.status_code (resp.header "content-type") = true)
  | some (.header _) => False
  | none => False

/-! ### The conditions are exact -/

/-- The validation ends with a rejection. -/
def Rejects (answer : Query → Answer) (m : Program ValidationOutcome) : Prop :=
  Yields answer m fun o ↦ o.outcome = .REJECTED

theorem rejects_xss (answer : Query → Answer) (repro : Dict) :
    Rejects answer (_validate_xss repro) ↔ XssRejects answer repro := by
  rw [Rejects, _validate_xss, yields_bind, yields_resent, XssRejects]
  refine exists_congr fun resp ↦ ?_
  rw [exists_and_left]
  refine and_congr_right fun _ ↦ ?_
  rw [yields_bind, yields_ofExcept]
  refine exists_congr fun reflected ↦ and_congr_right fun _ ↦ ?_
  cases reflected with
  | true =>
    rw [if_pos rfl]
    dsimp only
    cases renderable_html_context resp.status_code (resp.header "content-type") with
    | true => exact iff_of_false (fun h ↦ nomatch yields_pure.1 h) fun h ↦ h ⟨rfl, rfl⟩
    | false => exact iff_of_true (yields_pure.2 rfl) fun h ↦ nomatch h.2
  | false =>
    refine iff_of_true ?_ fun h ↦ nomatch h.1
    rw [if_neg Bool.false_ne_true]
    split
    · exact yields_pure.2 rfl
    · exact yields_pure.2 rfl

omit u in
/-- A call whose exceptions the validator looks at. -/
theorem yields_attempt_request {α : Type} {answer : Query → Answer} {query : Query}
    {next : Except Raised GuardedResponse → Program α} {post : α → Prop} :
    Yields answer (attempt (request query) >>= next) post ↔ Yields answer (next (answer query)) post := by
  rw [yields_bind, yields_attempt, eval_run_request]

theorem rejects_open_redirect (answer : Query → Answer) (repro : Dict) :
    Rejects answer (_validate_open_redirect repro) ↔ RedirectRejects answer repro := by
  rw [Rejects, _validate_open_redirect, openRedirect, yields_bind, yields_ofExcept, RedirectRejects]
  constructor
  · rintro ⟨overrides, ho, h⟩
    rw [yields_attempt_request] at h
    split at h
    next => exact nomatch yields_pure.1 h
    next => exact (yields_throw.1 h).elim
    next resp hresp =>
      rw [yields_bind, yields_ofExcept] at h
      obtain ⟨pointed, hpointed, h⟩ := h
      cases pointed with
      | true => exact nomatch yields_pure.1 h
      | false => exact ⟨resp, ⟨overrides, ho, hresp⟩, hpointed⟩
  · rintro ⟨resp, ⟨overrides, ho, hresp⟩, hpointed⟩
    refine ⟨overrides, ho, ?_⟩
    rw [yields_attempt_request, hresp]
    dsimp only
    rw [yields_bind, yields_ofExcept]
    exact ⟨false, hpointed, yields_pure.2 rfl⟩

theorem rejects_bola (answer : Query → Answer) (repro : Dict) (sessions : List AuthSession) :
    Rejects answer (_validate_bola repro sessions) ↔ BolaRejects answer repro sessions := by
  rw [Rejects, _validate_bola, BolaRejects]
  dsimp only
  split
  next hincomplete =>
    refine iff_of_false (fun h ↦ nomatch yields_pure.1 h) fun ⟨hurl, hobj, _⟩ ↦ ?_
    rw [hurl, Bool.not_true, Bool.false_or, decide_eq_true_iff] at hincomplete
    exact hobj hincomplete
  next hcomplete =>
    rw [Bool.or_eq_true, not_or, Bool.not_eq_true', Bool.not_eq_false, decide_eq_true_iff] at hcomplete
    rw [yields_attempt_request]
    constructor
    · intro h
      split at h
      next => exact nomatch yields_pure.1 h
      next => exact (yields_throw.1 h).elim
      next anon hanon =>
      split at h
      next => exact nomatch yields_pure.1 h
      next hpublic =>
      split at h
      next => exact nomatch yields_pure.1 h
      next attacker hattacker =>
      rw [yields_attempt_request] at h
      split at h
      next => exact nomatch yields_pure.1 h
      next => exact (yields_throw.1 h).elim
      next resp hresp =>
      split at h
      next => exact nomatch yields_pure.1 h
      split at h
      next hstatus =>
        exact ⟨hcomplete.1, hcomplete.2, ⟨anon, hanon, hpublic⟩, attacker, resp, hattacker, hresp,
          hstatus⟩
      next => exact nomatch yields_pure.1 h
    · rintro ⟨-, -, ⟨anon, hanon, hpublic⟩, attacker, resp, hattacker, hresp, hstatus⟩
      have hrefused : ¬(resp.status_code = 200 ∧ Text.hasInfix
          (repro.getD "object_id" (.text "")).toText resp.text = true) := by
        rintro ⟨h200, -⟩
        rw [h200] at hstatus
        exact absurd hstatus (by decide)
      rw [hanon]
      dsimp only
      rw [if_neg hpublic, hattacker]
      dsimp only
      rw [yields_attempt_request, hresp]
      dsimp only
      rw [if_neg hrefused, if_pos hstatus]
      exact yields_pure.2 rfl

theorem rejects_business_logic [WordTables] (answer : Query → Answer) (repro : Dict) :
    Rejects answer (_validate_business_logic repro) ↔ BusinessLogicRejects answer repro := by
  rw [Rejects, _validate_business_logic, BusinessLogicRejects]
  split
  next hincomplete =>
    refine iff_of_false (fun h ↦ nomatch yields_pure.1 h) fun ⟨hurl, hparam, _⟩ ↦ ?_
    rw [hurl, hparam] at hincomplete
    exact Bool.false_ne_true hincomplete
  next hcomplete =>
    rw [Bool.or_eq_true, not_or, Bool.not_eq_true', Bool.not_eq_false, Bool.not_eq_true',
      Bool.not_eq_false] at hcomplete
    simp only [hcomplete, true_and]
    rw [yields_bind, yields_resent]
    refine exists_congr fun baseline ↦ ?_
    rw [exists_and_left, yields_bind, yields_resent]
    refine and_congr_right fun _ ↦ exists_congr fun probe ↦ and_congr_right fun _ ↦ ?_
    split
    next hrefused => exact iff_of_false (fun h ↦ nomatch yields_pure.1 h) fun h ↦ hrefused h.1
    next haccepted =>
    rw [not_not] at haccepted
    split
    next happlied =>
      refine iff_of_false (fun h ↦ nomatch yields_pure.1 h) fun h ↦ ?_
      have hlt := happlied.1.2
      have hge := h.2
      omega
    split
    next hge => exact iff_of_true (yields_pure.2 rfl) ⟨haccepted, hge⟩
    next hlt => exact iff_of_false (fun h ↦ nomatch yields_pure.1 h) fun h ↦ hlt h.2

theorem rejects_prompt_injection (answer : Query → Answer) (repro : Dict) :
    Rejects answer (_validate_prompt_injection repro) ↔ PromptRejects answer repro := by
  rw [Rejects, _validate_prompt_injection, PromptRejects]
  dsimp only
  split
  next hincomplete =>
    refine iff_of_false (fun h ↦ nomatch yields_pure.1 h) fun ⟨hurl, hparam, _⟩ ↦ ?_
    rw [hurl, hparam] at hincomplete
    exact Bool.false_ne_true hincomplete
  next hcomplete =>
    rw [Bool.or_eq_true, not_or, Bool.not_eq_true', Bool.not_eq_false, Bool.not_eq_true',
      Bool.not_eq_false] at hcomplete
    simp only [hcomplete, true_and]
    rw [yields_fetched]
    refine exists_congr fun baseline ↦ ?_
    rw [exists_and_left, yields_fetched]
    refine and_congr_right fun _ ↦ exists_congr fun injection ↦ and_congr_right fun _ ↦ ?_
    split
    next hleaked => exact iff_of_false (fun h ↦ nomatch yields_pure.1 h) hleaked
    next hnone => exact iff_of_true (yields_pure.2 rfl) (not_not.1 hnone)

omit u in
/-- Header validators reject nothing. -/
theorem not_rejects_headers (answer : Query → Answer) (repro : Dict) :
    ¬Rejects answer (_validate_headers repro) := by
  rw [Rejects, _validate_headers]
  split
  · exact fun h ↦ nomatch yields_pure.1 h
  rw [yields_attempt_request]
  split
  · exact fun h ↦ nomatch yields_pure.1 h
  · exact fun h ↦ (yields_throw.1 h).elim
  · exact fun h ↦ nomatch yields_pure.1 h

section

variable [lib : StandardLibrary]

theorem rejects_sqli (answer : Query → Answer) (repro : Dict) :
    Rejects answer (_validate_sqli repro) ↔ SqliRejects answer repro := by
  rw [Rejects, _validate_sqli, SqliRejects]
  dsimp only
  split
  · rw [yields_bind, yields_resent]
    refine exists_congr fun resp ↦ ?_
    rw [exists_and_left]
    refine and_congr_right fun _ ↦ ?_
    cases hfound : errorSearch resp.text with
    | true =>
      refine iff_of_false (fun h ↦ nomatch yields_pure.1 h) fun ⟨_, _, h, _⟩ ↦ nomatch h
    | false =>
      rw [if_neg Bool.false_ne_true, yields_bind, yields_resent]
      refine exists_congr fun resp2 ↦ and_congr_right fun _ ↦ ?_
      cases errorSearch resp2.text with
      | true => exact iff_of_false (fun h ↦ nomatch yields_pure.1 h) fun h ↦ nomatch h.2
      | false => exact iff_of_true (yields_pure.2 rfl) ⟨rfl, rfl⟩
  split
  next hdetector =>
    rw [and_iff_right hdetector, yields_bind, yields_resent]
    refine exists_congr fun baseline ↦ ?_
    simp only [exists_and_left]
    refine and_congr_right fun _ ↦ ?_
    rw [yields_bind, yields_resent]
    refine exists_congr fun r_true ↦ and_congr_right fun _ ↦ ?_
    rw [yields_bind, yields_resent]
    refine exists_congr fun r_false ↦ and_congr_right fun _ ↦ ?_
    have hdiffers : (decide (r_true.status_code ≠ r_false.status_code) ||
        _len_differs r_true.text r_false.text none) = false ↔
          r_true.status_code = r_false.status_code ∧
            lenDiffers r_true.text r_false.text (3 / 10) = false := by
      rw [Bool.or_eq_false_iff, decide_eq_false_iff_not, not_not]
      exact Iff.rfl
    rw [← hdiffers]
    cases decide (r_true.status_code ≠ r_false.status_code) ||
        _len_differs r_true.text r_false.text none with
    | true =>
      refine iff_of_false (fun h ↦ ?_) nofun
      split at h
      · exact nomatch yields_pure.1 h
      · exact nomatch yields_pure.1 h
    | false => exact iff_of_true (yields_pure.2 rfl) rfl
  next hdetector =>
    exact iff_of_false (fun h ↦ nomatch yields_pure.1 h) fun h ↦ hdetector h.1

theorem rejects_declarative (answer : Query → Answer) (repro : Dict) :
    Rejects answer (_validate_declarative repro) ↔ DeclarativeRejects answer repro := by
  rw [Rejects, _validate_declarative, DeclarativeRejects]
  cases Detector.ofRecipe repro with
  | none => exact iff_of_false (fun h ↦ nomatch yields_pure.1 h) not_false
  | some d =>
  cases d with
  | status_code =>
    dsimp only
    rw [yields_bind, yields_ofExcept]
    refine exists_congr fun trigger ↦ ?_
    rw [exists_and_left, yields_bind, yields_resent]
    refine and_congr_right fun _ ↦ exists_congr fun resp ↦ and_congr_right fun _ ↦ ?_
    split
    next hmem => exact iff_of_false (fun h ↦ nomatch yields_pure.1 h) fun h ↦ h hmem
    next hmem => exact iff_of_true (yields_pure.2 rfl) hmem
  | error_signature =>
    dsimp only
    rw [yields_bind, yields_ofExcept]
    refine exists_congr fun rx ↦ ?_
    rw [exists_and_left, yields_bind, yields_resent]
    refine and_congr_right fun _ ↦ exists_congr fun resp ↦ and_congr_right fun _ ↦ ?_
    cases rx.any (lib.search · resp.text) with
    | true => exact iff_of_false (fun h ↦ nomatch yields_pure.1 h) nofun
    | false => exact iff_of_true (yields_pure.2 rfl) rfl
  | reflection =>
    dsimp only
    rw [yields_bind, yields_resent]
    constructor
    · rintro ⟨resp, hsent, h⟩
      rw [yields_bind, yields_ofExcept] at h
      obtain ⟨payload, hpayload, h⟩ := h
      have hraw : repro.getD "payload" (.text "") = .str payload := by
        cases hcase : repro.getD "payload" (.text "") with
        | str t =>
          rw [hcase] at hpayload
          rw [← Except.ok.inj hpayload]
        | _ =>
          rw [hcase] at hpayload
          cases hpayload
      rw [hraw] at hsent
      refine ⟨payload, resp, hraw, hsent, fun ⟨hin, hescaped, hrender⟩ ↦ ?_⟩
      rw [if_pos ⟨hin, hescaped⟩, hrender] at h
      exact nomatch yields_pure.1 h
    · rintro ⟨payload, resp, hraw, hsent, hnot⟩
      rw [hraw]
      refine ⟨resp, hsent, ?_⟩
      rw [yields_bind, yields_ofExcept]
      refine ⟨payload, rfl, ?_⟩
      split
      next hin =>
        have hrender : renderable_html_context resp.status_code (resp.header "content-type") = false :=
          Bool.eq_false_iff.2 fun hrender ↦ hnot ⟨hin.1, hin.2, hrender⟩
        rw [hrender]
        exact yields_pure.2 rfl
      next => exact yields_pure.2 rfl
  | header d =>
    refine iff_of_false (fun h ↦ ?_) not_false
    dsimp only at h
    split at h
    · exact nomatch yields_pure.1 h
    rw [yields_bind] at h
    obtain ⟨resp, -, h⟩ := h
    exact nomatch yields_pure.1 h

/-- A recipe that names no flow is not rejected as one. -/
theorem not_rejects_business_flow {answer : Query → Answer} {repro : Dict}
    (h : repro.get "flow" = .null) : ¬Rejects answer (_validate_business_flow repro) := by
  have hflow : FLOWS.find? (fun f ↦ (repro.get "flow").is f.name) = none :=
    List.find?_eq_none.2 fun f _ ↦ by rw [h]; exact Bool.false_ne_true
  rw [Rejects, _validate_business_flow, hflow]
  exact fun h ↦ nomatch yields_pure.1 h

/-! ### The validation of a finding -/

variable [w : WordTables]

/-- The handlers around the dispatch neither reject nor save from a rejection. -/
theorem rejects_validate_finding (answer : Query → Answer) (check_class : String) (repro : Dict)
    (sessions : List AuthSession) :
    Rejects answer (validate_finding check_class repro sessions) ↔
      repro.isEmpty = false ∧ Rejects answer (dispatched check_class repro sessions) := by
  rw [Rejects, validate_finding]
  split
  next hempty => exact iff_of_false (fun h ↦ nomatch yields_pure.1 h) fun h ↦ nomatch h.1 ▸ hempty
  next hempty =>
    have hright : Rejects answer (dispatched check_class repro sessions) ↔
        ∃ o, eval answer (dispatched check_class repro sessions).run = .ok o ∧ o.outcome = .REJECTED :=
      Iff.rfl
    rw [and_iff_right (Bool.eq_false_iff.2 hempty), yields_bind, yields_attempt, hright]
    cases eval answer (dispatched check_class repro sessions).run with
    | ok outcome =>
      rw [yields_pure]
      exact ⟨fun h ↦ ⟨outcome, rfl, h⟩, fun ⟨_, ho, h⟩ ↦ Except.ok.inj ho ▸ h⟩
    | error exc =>
      refine iff_of_false (fun h ↦ ?_) fun ⟨_, ho, _⟩ ↦ nomatch ho
      split at h
      next ho => cases ho
      next => exact nomatch yields_pure.1 h
      next => exact nomatch yields_pure.1 h
      next => exact (yields_throw.1 h).elim

end

end

end Validation

end Sentrik
