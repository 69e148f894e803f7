import Mathlib.Data.List.Sort
import Mathlib.Algebra.Order.Ring.Unbundled.Rat
import Sentrik.Library.Tenancy
import Sentrik.Core.Auth

/-!
# The chat connector

The chat endpoint maps keywords of a message to one of five intents and answers from the database. Ids
are taken from the message (the first run of 32 hexadecimal digits that stands as a word) or from the
body of the request.

`ChatDatabase` holds the tables the handler reads, with what the database and the code that writes
them keep: ids are primary keys, and a finding belongs to the organization of its assessment.

## Who sees what

Four of the intents use another organization's rows for nothing. The summary of findings selects them
by the assessment id alone. So the answer depends on other organizations exactly for the messages that
reach that intent with an id (`chat_noninterfering_iff`).
-/

namespace Sentrik

namespace Chat

/-! ### Rows -/

/-- What the reply reads of an assessment's summary: the grade under its risk. -/
structure Summary where
  risk : Option (Option Text) := none
  deriving DecidableEq, Repr

structure Assessment where
  id : Text
  org_id : ℕ
  state : String := AssessmentState.CREATED.value
  requests_made : ℕ := 0
  summary : Summary := {}
  deriving DecidableEq, Repr

structure Target where
  id : Text
  org_id : ℕ
  name : Text
  deriving DecidableEq, Repr

structure Finding where
  id : Text
  org_id : ℕ
  assessment_id : Text
  title : Text
  severity : Text := "medium".toList
  status : Text := "suspected".toList
  risk_score : ℚ := 0
  deriving DecidableEq, Repr

structure ChatSession where
  id : Text
  org_id : ℕ
  assessment_id : Option Text
  title : Text
  deriving DecidableEq, Repr

/-- A structured tool action. -/
inductive Action
  | get_status (assessment_id : Text)
  | start_assessment (assessment_id : Text)
  | list_targets (count : ℕ)
  | summarize_findings (assessment_id : Text)
  deriving DecidableEq, Repr

structure ChatMessage where
  session_id : Text
  role : String
  content : Text
  actions : List Action := []
  deriving DecidableEq, Repr

/-- The tables, with what holds of them. -/
structure ChatDatabase where
  assessments : List Assessment
  targets : List Target
  findings : List Finding
  sessions : List ChatSession
  messages : List ChatMessage
  /-- The id of an assessment is its primary key. -/
  assessments_nodup : (assessments.map Assessment.id).Nodup
  /-- A finding is written with the organization of its assessment, to which it has a foreign key. -/
  finding_org : ∀ f ∈ findings, ∃ a ∈ assessments, a.id = f.assessment_id ∧ a.org_id = f.org_id

/-- Two states of the database hold the same rows of an organization. -/
structure ChatDatabase.AgreeOn (o : ℕ) (db db' : ChatDatabase) : Prop where
  assessments : Tenancy.AgreeOn Assessment.org_id o db.assessments db'.assessments
  targets : Tenancy.AgreeOn Target.org_id o db.targets db'.targets
  findings : Tenancy.AgreeOn Finding.org_id o db.findings db'.findings
  sessions : Tenancy.AgreeOn ChatSession.org_id o db.sessions db'.sessions

structure ChatRequest where
  message : Text
  session_id : Option Text := none
  assessment_id : Option Text := none

structure ChatReply where
  session_id : Text
  reply : Text
  actions : List Action := []
  deriving DecidableEq, Repr

/-- What the intent handler returns, and the run it launches. -/
structure Intent where
  reply : Text
  actions : List Action := []
  launches : Option Text := none
  deriving DecidableEq, Repr

/-! ### Ids in a message -/

section

variable [u : UnicodeTables] [w : WordTables]

/-- The boundary of a word lies between the two characters. -/
def wordBoundary (before after : Option Char) : Bool :=
  before.any isWord != after.any isWord

def isLowerHex (c : Char) : Bool := Text.isDigit c || ('a' ≤ c && c ≤ 'f')

/-- The first run of 32 hexadecimal digits between word boundaries; `before` is the character in front
of the text. -/
def searchId (before : Option Char) : Text → Option Text
  | [] => none
  | c :: rest =>
    if wordBoundary before (some c) ∧ 32 ≤ (c :: rest).length ∧
        ((c :: rest).take 32).all isLowerHex ∧
        wordBoundary (c :: rest)[31]? (c :: rest)[32]? then
      some ((c :: rest).take 32)
    else searchId (some c) rest

def _extract_id (message : Text) : Option Text := searchId none message

/-- The id a message is about, if it is not empty. -/
def aid (message : Text) (assessment_id : Option Text) : Option Text :=
  ((_extract_id message).orElse fun _ ↦ assessment_id).filter (· ≠ [])

/-! ### Intents -/

/-- One of the words occurs in the text. -/
def mentions (words : List String) (text : Text) : Bool :=
  words.any fun word ↦ Text.hasInfix word.toList text

def asksStatus (text : Text) : Bool := mentions ["status", "progress", "how is", "where is"] text

def asksStart (text : Text) : Bool :=
  Text.startswith text "start".toList || mentions ["run assessment", "begin assessment"] text

def asksTargets (text : Text) : Bool :=
  mentions ["target"] text && mentions ["list", "show", "what"] text

def asksFindings (text : Text) : Bool := mentions ["finding", "vulnerab", "summar"] text

/-- `session.get` of an assessment, used only if it is the principal's. -/
def ownAssessment (db : ChatDatabase) (org_id : ℕ) (id : Text) : Option Assessment :=
  (db.assessments.find? (Assessment.id · = id)).filter (Assessment.org_id · = org_id)

/-- `select(Finding)` of an assessment. -/
def findingsOf (db : ChatDatabase) (id : Text) : List Finding :=
  db.findings.filter (Finding.assessment_id · = id)

/-- `select(Target)` of an organization. -/
def targetsOf (db : ChatDatabase) (org_id : ℕ) : List Target :=
  db.targets.filter (Target.org_id · = org_id)

/-- A number in a reply. -/
def digits (n : ℕ) : Text := (toString n).toList

def statusReply (id : Text) (a : Assessment) (findings : ℕ) : Text :=
  "Assessment ".toList ++ id ++ " is in state '".toList ++ a.state.toList ++ "' with ".toList ++
    digits a.requests_made ++ " requests made and ".toList ++ digits findings ++
    " findings so far. Risk grade: ".toList ++ (a.summary.risk.getD none).getD "n/a".toList ++
    ".".toList

def unknownStatus : Intent where
  reply := "Tell me which assessment (id) you'd like the status of.".toList

def ownStatus (db : ChatDatabase) (org_id : ℕ) (id : Text) : Option Intent :=
  (ownAssessment db org_id id).map fun a ↦ {
    reply := statusReply id a (findingsOf db id).length
    actions := [.get_status id] }

def statusIntent (db : ChatDatabase) (org_id : ℕ) (id : Option Text) : Intent :=
  (id.bind (ownStatus db org_id)).getD unknownStatus

def startOwn (id : Text) (role : Role) (a : Assessment) : Intent :=
  if a.state ≠ AssessmentState.CREATED.value ∧ a.state ≠ AssessmentState.FAILED.value then
    { reply := "Assessment ".toList ++ id ++ " is already ".toList ++ a.state.toList ++
        "; cannot start.".toList }
  else if role = .VIEWER then
    { reply := "You need at least the operator role to start an assessment.".toList }
  else {
    reply := "Started assessment ".toList ++ id ++ ". Ask me for its status any time.".toList
    actions := [.start_assessment id]
    launches := some id }

def unknownAssessment (id : Text) : Intent where
  reply := "I couldn't find assessment ".toList ++ id ++ ".".toList

def noAssessment : Intent where
  reply := "Which assessment id should I start?".toList

def startIntent (db : ChatDatabase) (principal : Principal) (id : Option Text) : Intent :=
  id.elim noAssessment fun id ↦
    (ownAssessment db principal.org_id id).elim (unknownAssessment id) (startOwn id principal.role)

def listTargets (db : ChatDatabase) (org_id : ℕ) : Intent :=
  let rows := targetsOf db org_id
  let actions := [Action.list_targets rows.length]
  if rows = [] then
    { reply := "You have no targets yet. Create one via POST /v1/targets.".toList, actions }
  else
    let listing := List.intercalate ", ".toList
      ((rows.take 10).map fun t ↦ t.name ++ " (".toList ++ t.id ++ ")".toList)
    { reply := "You have ".toList ++ digits rows.length ++ " target(s): ".toList ++ listing ++
        ".".toList
      actions }

/-- Count a severity, a new one at the end. -/
def countSeverity : List (Text × ℕ) → Text → List (Text × ℕ)
  | [], sev => [(sev, 1)]
  | (s, n) :: rest, sev => if s = sev then (s, n + 1) :: rest else (s, n) :: countSeverity rest sev

/-- The rendering of a dictionary of counts. -/
def renderCounts (counts : List (Text × ℕ)) : Text :=
  "\x7b".toList ++ List.intercalate ", ".toList
    (counts.map fun c ↦ (Text.repr c.1).toList ++ ": ".toList ++ digits c.2) ++ "\x7d".toList

/-- Counts by severity and the three findings with the highest risk. -/
def summary (findings : List Finding) : Text :=
  let by_sev := findings.foldl (fun counts f ↦ countSeverity counts f.severity) []
  let top := (findings.insertionSort fun f f' ↦ f'.risk_score ≤ f.risk_score).take 3
  let top_txt := List.intercalate "; ".toList (top.map fun t ↦
    t.title ++ " (".toList ++ t.severity ++ ", ".toList ++ t.status ++ ")".toList)
  digits findings.length ++ " findings by severity ".toList ++ renderCounts by_sev ++
    ". Top: ".toList ++ top_txt ++ ".".toList

def noFindings (id : Text) : Text := "No findings recorded for ".toList ++ id ++ " yet.".toList

def noSummary : Intent where
  reply := "Which assessment's findings should I summarize?".toList

def summarizeFindings (db : ChatDatabase) (id : Option Text) : Intent :=
  id.elim noSummary fun id ↦ {
    reply := if findingsOf db id = [] then noFindings id else summary (findingsOf db id)
    actions := [.summarize_findings id] }

def help : Intent where
  reply := ("I can: list targets, start an assessment, report assessment status, and " ++
    "summarize findings. Try 'start assessment <id>' or 'status of <id>'. " ++
    "For onboarding, authorization, and discovery use the documented /v1 APIs.").toList

def _handle_intent (db : ChatDatabase) (principal : Principal) (message : Text)
    (assessment_id : Option Text) : Intent :=
  let text := Text.strip (u.lower message)
  if asksStatus text then statusIntent db principal.org_id (aid message assessment_id)
  else if asksStart text then startIntent db principal (aid message assessment_id)
  else if asksTargets text then listTargets db principal.org_id
  else if asksFindings text then summarizeFindings db (aid message assessment_id)
  else help

/-! ### The endpoint -/

/-- The session a message belongs to: the given one, if it exists and is the principal's, else a new
one under the id `fresh`. -/
def resolveSession (db : ChatDatabase) (principal : Principal) (body : ChatRequest) (fresh : Text) :
    Except HTTPException (ChatDatabase × ChatSession) :=
  let created : ChatSession := {
    id := fresh
    org_id := principal.org_id
    assessment_id := body.assessment_id
    title := body.message.take 60 }
  match (body.session_id.filter (· ≠ [])).bind fun id ↦
      db.sessions.find? (ChatSession.id · = id) with
  | some s =>
    if s.org_id ≠ principal.org_id then
      .error { status_code := 404, detail := "chat session not found" }
    else .ok (db, s)
  | none => .ok ({ db with sessions := db.sessions ++ [created] }, created)

/-- `POST /v1/chat`; `fresh` is the id of the session it creates if it has to. -/
def chat (db : ChatDatabase) (principal : Principal) (body : ChatRequest) (fresh : Text) :
    Except HTTPException (ChatDatabase × ChatReply) := do
  let (db, session) ← resolveSession db principal body fresh
  let intent := _handle_intent db principal body.message body.assessment_id
  let asked : ChatMessage := { session_id := session.id, role := "user", content := body.message }
  let answered : ChatMessage := {
    session_id := session.id
    role := "assistant"
    content := intent.reply
    actions := intent.actions }
  return ({ db with messages := db.messages ++ [asked, answered] },
    { session_id := session.id, reply := intent.reply, actions := intent.actions })

end

/-! ### What each intent reads -/

section

variable {db db' : ChatDatabase} {principal : Principal} {o : ℕ}

theorem ownAssessment_congr (h : db.AgreeOn o db') (id : Text) :
    ownAssessment db o id = ownAssessment db' o id :=
  h.assessments.find_own db.assessments_nodup db'.assessments_nodup

theorem ownAssessment_some {id : Text} {a : Assessment} (h : ownAssessment db o id = some a) :
    a ∈ db.assessments ∧ a.id = id ∧ a.org_id = o := by
  obtain ⟨hfind, horg⟩ := Option.filter_eq_some_iff.1 h
  have hid := List.find?_some (p := fun b : Assessment ↦ decide (b.id = id)) hfind
  exact ⟨List.mem_of_find?_eq_some hfind, of_decide_eq_true hid, of_decide_eq_true horg⟩

/-- The findings of an organization's own assessment are its own. -/
theorem finding_own {id : Text} {a : Assessment} (h : ownAssessment db o id = some a)
    {f : Finding} (hf : f ∈ db.findings) (hid : f.assessment_id = id) : f.org_id = o := by
  obtain ⟨ha, haid, horg⟩ := ownAssessment_some h
  obtain ⟨b, hb, hbid, hborg⟩ := db.finding_org f hf
  have hba : b = a := List.inj_on_of_nodup_map db.assessments_nodup hb ha
    (hbid.trans (hid.trans haid.symm))
  rw [← hborg, hba, horg]

theorem findingsOf_congr (h : db.AgreeOn o db') {id : Text} {a : Assessment}
    (ha : ownAssessment db o id = some a) : findingsOf db id = findingsOf db' id := by
  refine h.findings.filter_eq (fun f hf hid ↦ finding_own ha hf (of_decide_eq_true hid))
    fun f hf hid ↦ ?_
  rw [ownAssessment_congr h] at ha
  exact finding_own ha hf (of_decide_eq_true hid)

theorem ownStatus_congr (h : db.AgreeOn o db') (id : Text) :
    ownStatus db o id = ownStatus db' o id := by
  rw [ownStatus, ownStatus, ← ownAssessment_congr h]
  cases ha : ownAssessment db o id with
  | none => rfl
  | some a => rw [Option.map_some, Option.map_some, findingsOf_congr h ha]

theorem statusIntent_congr (h : db.AgreeOn o db') (id : Option Text) :
    statusIntent db o id = statusIntent db' o id := by
  rw [statusIntent, statusIntent, show ownStatus db o = ownStatus db' o from
    funext fun id ↦ ownStatus_congr h id]

theorem startIntent_congr (h : db.AgreeOn principal.org_id db') (id : Option Text) :
    startIntent db principal id = startIntent db' principal id := by
  have hown : ownAssessment db principal.org_id = ownAssessment db' principal.org_id :=
    funext fun id ↦ ownAssessment_congr h id
  rw [startIntent, startIntent, hown]

theorem listTargets_congr (h : db.AgreeOn o db') : listTargets db o = listTargets db' o := by
  have hrows : targetsOf db o = targetsOf db' o := h.targets
  rw [listTargets, listTargets, hrows]

/-! ### Two databases an organization cannot tell apart -/

/-- A database without rows. -/
def emptyDatabase : ChatDatabase where
  assessments := []
  targets := []
  findings := []
  sessions := []
  messages := []
  assessments_nodup := List.nodup_nil
  finding_org := nofun

/-- A database in which another organization has an assessment with one finding. -/
def otherDatabase (org_id : ℕ) (id : Text) : ChatDatabase where
  assessments := [{ id, org_id }]
  targets := []
  findings := [{ id := [], org_id, assessment_id := id, title := "SQL injection".toList }]
  sessions := []
  messages := []
  assessments_nodup := List.nodup_singleton _
  finding_org := by
    intro f hf
    rw [List.mem_singleton.1 hf]
    exact ⟨_, List.mem_singleton_self _, rfl, rfl⟩

theorem agreeOn_otherDatabase {o o' : ℕ} (h : o' ≠ o) (id : Text) :
    ChatDatabase.AgreeOn o emptyDatabase (otherDatabase o' id) where
  assessments := by simp [Tenancy.AgreeOn, Tenancy.rowsOf, emptyDatabase, otherDatabase, h]
  targets := rfl
  findings := by simp [Tenancy.AgreeOn, Tenancy.rowsOf, emptyDatabase, otherDatabase, h]
  sessions := rfl

end

/-! ### Noninterference -/

theorem head_noFindings (id : Text) : (noFindings id).head? = some 'N' := by
  have hhead : "No findings recorded for ".toList.head? = some 'N' := by decide +kernel
  have hcut : noFindings id = "No findings recorded for ".toList ++ (id ++ " yet.".toList) :=
    List.append_assoc ..
  rw [hcut, List.head?_append, hhead, Option.some_or]

theorem head_summary [UnicodeTables] {findings : List Finding} (h : findings.length = 1) :
    (summary findings).head? = some '1' := by
  have hhead : (digits 1).head? = some '1' := by decide +kernel
  rw [summary, h, List.append_assoc, List.append_assoc, List.append_assoc, List.append_assoc,
    List.head?_append, hhead, Option.some_or]

section

variable [u : UnicodeTables] [w : WordTables] {db db' : ChatDatabase} {principal : Principal}

/-- The message reaches the summary of findings, with the id of an assessment. -/
def summarizes (message : Text) (assessment_id : Option Text) : Bool :=
  let text := Text.strip (u.lower message)
  !asksStatus text && !asksStart text && !asksTargets text && asksFindings text &&
    (aid message assessment_id).isSome

/-- Two answers of the endpoint with the same reply and the same actions, if there are two. -/
def SameAnswer (r r' : Except HTTPException (ChatDatabase × ChatReply)) : Prop :=
  ∀ s s', r = .ok s → r' = .ok s' → s.2.reply = s'.2.reply ∧ s.2.actions = s'.2.actions

/-- Without such a summary, the intent depends on the organization's own rows only. -/
theorem _handle_intent_congr {message : Text} {assessment_id : Option Text}
    (hsum : summarizes message assessment_id = false) (h : db.AgreeOn principal.org_id db') :
    _handle_intent db principal message assessment_id =
      _handle_intent db' principal message assessment_id := by
  rw [_handle_intent, _handle_intent]
  split
  · exact statusIntent_congr h _
  next hstatus =>
  split
  · exact startIntent_congr h _
  next hstart =>
  split
  · exact listTargets_congr h
  next htargets =>
  split
  next hfindings =>
    -- the summary is reached, so there is no id
    have hnone : aid message assessment_id = none := by
      simpa [summarizes, hstatus, hstart, htargets, hfindings] using hsum
    rw [hnone]
    rfl
  next => rfl

/-- The session of a message is resolved without touching what the intents read. -/
theorem resolveSession_ok {body : ChatRequest} {fresh : Text} {r : ChatDatabase × ChatSession}
    (h : resolveSession db principal body fresh = .ok r) (message : Text)
    (assessment_id : Option Text) :
    _handle_intent r.1 principal message assessment_id =
      _handle_intent db principal message assessment_id := by
  rw [resolveSession] at h
  split at h
  next =>
    split at h
    · cases h
    · rw [← Except.ok.inj h]
  next =>
    rw [← Except.ok.inj h]
    rfl

/-- What the endpoint answers is the intent. -/
theorem chat_ok {body : ChatRequest} {fresh : Text} {r : ChatDatabase × ChatReply}
    (h : chat db principal body fresh = .ok r) :
    r.2.reply = (_handle_intent db principal body.message body.assessment_id).reply ∧
      r.2.actions = (_handle_intent db principal body.message body.assessment_id).actions := by
  simp only [chat, bind, Except.bind] at h
  split at h
  · cases h
  next s hs =>
    obtain rfl := Except.ok.inj h
    rw [resolveSession_ok hs]
    exact ⟨rfl, rfl⟩

/-- Without sessions the endpoint creates one and answers. -/
theorem chat_of_no_sessions (db : ChatDatabase) (principal : Principal) (body : ChatRequest)
    (fresh : Text) (h : db.sessions = []) : ∃ r, chat db principal body fresh = .ok r := by
  have hnone : ((body.session_id.filter (· ≠ [])).bind fun id ↦
      db.sessions.find? (ChatSession.id · = id)) = none := by
    rw [h]
    cases body.session_id.filter (· ≠ []) <;> rfl
  have hsession : ∃ s, resolveSession db principal body fresh = .ok s :=
    ⟨_, by rw [resolveSession, hnone]⟩
  obtain ⟨s, hs⟩ := hsession
  rw [chat, hs]
  exact ⟨_, rfl⟩

/-- With such a summary, the intent tells the two apart. -/
theorem _handle_intent_otherDatabase (principal : Principal) {message : Text}
    {assessment_id : Option Text} (hsum : summarizes message assessment_id = true) (o : ℕ) :
    ∃ id, (_handle_intent emptyDatabase principal message assessment_id).reply ≠
      (_handle_intent (otherDatabase o id) principal message assessment_id).reply := by
  simp only [summarizes, Bool.and_eq_true, Bool.not_eq_true'] at hsum
  obtain ⟨⟨⟨⟨hstatus, hstart⟩, htargets⟩, hfindings⟩, haid⟩ := hsum
  obtain ⟨id, hid⟩ := Option.isSome_iff_exists.1 haid
  have hreach : ∀ db : ChatDatabase, (_handle_intent db principal message assessment_id).reply =
      if findingsOf db id = [] then noFindings id else summary (findingsOf db id) := by
    intro db
    rw [_handle_intent, hstatus, hstart, htargets, hfindings, if_neg Bool.false_ne_true,
      if_neg Bool.false_ne_true, if_neg Bool.false_ne_true, if_pos rfl, hid, summarizeFindings,
      Option.elim_some]
  have hone : (findingsOf (otherDatabase o id) id).length = 1 := by
    simp [findingsOf, otherDatabase]
  refine ⟨id, fun heq ↦ ?_⟩
  have hnone : findingsOf emptyDatabase id = [] := rfl
  rw [hreach, hreach, if_pos hnone, if_neg (List.ne_nil_of_length_eq_add_one hone)] at heq
  have hhead := congrArg List.head? heq
  rw [head_noFindings, head_summary hone] at hhead
  exact absurd hhead (by decide)

/-- **Noninterference of the chat connector.** Whatever other organizations hold, the answer to a
principal is the same, exactly for the messages that do not reach the summary of findings with the id
of an assessment. -/
theorem chat_noninterfering_iff (principal : Principal) (body : ChatRequest) (fresh : Text) :
    (∀ db db' : ChatDatabase, db.AgreeOn principal.org_id db' →
        SameAnswer (chat db principal body fresh) (chat db' principal body fresh)) ↔
      summarizes body.message body.assessment_id = false := by
  constructor
  · intro hni
    by_contra hsum
    have htrue : summarizes body.message body.assessment_id = true := by simpa using hsum
    obtain ⟨id, hne⟩ := _handle_intent_otherDatabase principal htrue (principal.org_id + 1)
    have hsame := hni _ _ (agreeOn_otherDatabase (Nat.succ_ne_self _) id)
    obtain ⟨r, hr⟩ := chat_of_no_sessions emptyDatabase principal body fresh rfl
    obtain ⟨r', hr'⟩ := chat_of_no_sessions (otherDatabase (principal.org_id + 1) id) principal body
      fresh rfl
    exact hne (((chat_ok hr).1.symm.trans (hsame r r' hr hr').1).trans (chat_ok hr').1)
  · intro hsum db db' h r r' hr hr'
    obtain ⟨hreply, hactions⟩ := chat_ok hr
    obtain ⟨hreply', hactions'⟩ := chat_ok hr'
    have hintent := _handle_intent_congr hsum h
    exact ⟨by rw [hreply, hreply', hintent], by rw [hactions, hactions', hintent]⟩

end

section

attribute [local instance] asciiTables asciiWords

/-- A summary asked for by a principal of organization 1. -/
def askedSummary : ChatRequest where
  message := "Summarize the findings please".toList
  assessment_id := some "a".toList

/-- The answer tells whether organization 2 has an assessment with that id and findings. -/
theorem askedSummary_leaks :
    ChatDatabase.AgreeOn 1 emptyDatabase (otherDatabase 2 "a".toList) ∧
      ((chat emptyDatabase ⟨1, 1, .VIEWER, .api_key⟩ askedSummary "s".toList).toOption.map
          (·.2.reply) =
        some "No findings recorded for a yet.".toList) ∧
      ((chat (otherDatabase 2 "a".toList) ⟨1, 1, .VIEWER, .api_key⟩ askedSummary
          "s".toList).toOption.map (·.2.reply) =
        some ("1 findings by severity \x7b'medium': 1\x7d. " ++
          "Top: SQL injection (medium, suspected).").toList) := by
  refine ⟨agreeOn_otherDatabase (by decide) _, ?_, ?_⟩ <;> decide +kernel

end

end Chat

end Sentrik
