import Sentrik.Api.Assessments

/-!
# The A2A server

A message is data: its data parts and its text are merged into one request dictionary, and the request
becomes an assessment of the caller's organization, which is started at once. The wait for the run and
the report of its outcome come after that and are left out.

Decoding the text of a message as a JSON document is the standard library's; it is the parameter
`json_loads`, about which nothing is assumed.
-/

namespace Sentrik

/-- A message: its data parts as decoded, and the text the user wrote. -/
structure A2aMessage where
  parts : List Json := []
  input : Text := []

/-- How `execute` answers before it waits for the run. -/
inductive A2aReply
  | requires_auth
  | requires_input
  | reject (message : String)
  | working (assessment_id : ℕ)
  deriving DecidableEq

namespace Platform

/-- `SentrikAgentExecutor.cancel`; the assessment is the one in the metadata of the task. -/
def cancel (p : Platform) (user_name : Option ℕ) (assessment_id : Text) : Outcome Text :=
  match user_name with
  | none => ⟨p, [], assessment_id⟩
  | some org_id =>
    match (p.getAssessment assessment_id).filter fun a ↦
        a.org_id = org_id ∧ a.state ∉ TERMINAL_STATES with
    | none => ⟨p, [], assessment_id⟩
    | some a =>
      let row := { a with
        cancel_requested := true
        state := if a.id ∈ p.running then a.state else .CANCELLED }
      ⟨{ p with
        assessments := p.assessments.map fun b : AssessmentRow ↦ if b.id = a.id then row else b },
        [], assessment_id⟩

/-- Cancelling creates, starts and sends nothing. -/
theorem cancel_effects {p : Platform} {user_name : Option ℕ} {assessment_id : Text} :
    (p.cancel user_name assessment_id).effects = [] := by
  cases user_name with
  | none => rfl
  | some org_id =>
    simp only [cancel]
    split <;> rfl

end Platform

section

variable [u : UnicodeTables]

/-- The words of a text, between white space. -/
def words (text : Text) : List Text := (text.splitOnP u.isSpace).filter (· ≠ [])

/-- Merge data parts and a `key=value` text form into one request dictionary. -/
def _parse_request (json_loads : Text → Option Json) (m : A2aMessage) : Dict :=
  let req := (m.parts.filterMap Json.dict?).foldl Dict.update []
  let text := Text.strip m.input
  if Text.startswith text "\x7b".toList then
    ((json_loads text).bind Json.dict?).elim req req.update
  else
    (words text).foldl (fun req token ↦
      match Text.partition '=' token with
      | (k, some v) => req.setdefault (Text.strip k) (.str (Text.strip v))
      | (_, none) => req) req

/-- `str(req.get(key) or "")`. -/
def textField (req : Dict) (key : String) : Text :=
  ((Json.orNone (req.get? key.toList)).getD (.str [])).toText

/-- `req.get(key) or []`, if it is a list. -/
def listField (req : Dict) (key : String) : Option (List Json) :=
  ((Json.orNone (req.get? key.toList)).getD (.arr [])).list?

namespace Platform

/-- `SentrikAgentExecutor.execute`, up to the wait for the run. Of the authenticated user it reads the
name, which is the organization. -/
def execute (json_loads : Text → Option Json) (p : Platform) (user_name : Option ℕ) (m : A2aMessage) :
    Outcome A2aReply :=
  match user_name with
  | none => ⟨p, [], .requires_auth⟩
  | some org_id =>
    let req := _parse_request json_loads m
    let target_id := textField req "target_id"
    let authorization_id := textField req "authorization_id"
    if target_id = [] ∨ authorization_id = [] then ⟨p, [], .requires_input⟩
    else
      match listField req "requested_check_classes", listField req "artifacts" with
      | some classes, some artifacts =>
        match p.create_assessment org_id target_id authorization_id (classes.map Json.toText)
            (artifacts.filterMap Json.dict?) with
        | .error e => ⟨p, [], .reject s!"{e.status_code}: {e.detail}"⟩
        | .ok (p, a) =>
          ⟨(p.start_assessment a.id).1, .created a.id :: (p.start_assessment a.id).2, .working a.id⟩
      | _, _ => ⟨p, [], .reject "requested_check_classes and artifacts must be lists"⟩

/-- The message names a target and an authorization, and what else it carries has the right form. -/
structure WellFormed (req : Dict) : Prop where
  target : textField req "target_id" ≠ []
  authorization : textField req "authorization_id" ≠ []
  classes : (listField req "requested_check_classes").isSome
  artifacts : (listField req "artifacts").isSome

/-- A message has an effect exactly if it is well formed and its caller's organization may create the
assessment it asks for. -/
theorem execute_effects_iff {json_loads : Text → Option Json} {p : Platform} {org_id : ℕ}
    {m : A2aMessage} :
    (p.execute json_loads (some org_id) m).effects ≠ [] ↔
      WellFormed (_parse_request json_loads m) ∧
        p.Creatable org_id (textField (_parse_request json_loads m) "target_id")
          (textField (_parse_request json_loads m) "authorization_id") := by
  generalize hreq : _parse_request json_loads m = req
  simp only [execute, hreq]
  split
  next hmissing =>
    refine iff_of_false (fun h ↦ h rfl) fun ⟨hwf, _⟩ ↦ ?_
    exact hmissing.elim hwf.target hwf.authorization
  next hnamed =>
  rw [not_or] at hnamed
  split
  next classes artifacts hclasses hartifacts =>
    have hwf : WellFormed req :=
      ⟨hnamed.1, hnamed.2, Option.isSome_iff_exists.2 ⟨classes, hclasses⟩,
        Option.isSome_iff_exists.2 ⟨artifacts, hartifacts⟩⟩
    have hcreate : (∃ r, p.create_assessment org_id (textField req "target_id")
        (textField req "authorization_id") (classes.map Json.toText)
        (artifacts.filterMap Json.dict?) = .ok r) ↔
        p.Creatable org_id (textField req "target_id") (textField req "authorization_id") :=
      create_assessment_ok_iff
    rw [and_iff_right hwf, ← hcreate]
    split
    next e he =>
      refine iff_of_false (fun h ↦ h rfl) ?_
      rintro ⟨r, hr⟩
      rw [he] at hr
      cases hr
    next p' a hok => exact iff_of_true (List.cons_ne_nil _ _) ⟨(p', a), hok⟩
  next hlists =>
    refine iff_of_false (fun h ↦ h rfl) fun ⟨hwf, _⟩ ↦ ?_
    obtain ⟨classes, hclasses⟩ := Option.isSome_iff_exists.1 hwf.classes
    obtain ⟨artifacts, hartifacts⟩ := Option.isSome_iff_exists.1 hwf.artifacts
    exact hlists classes artifacts hclasses hartifacts

end Platform

end

end Sentrik
