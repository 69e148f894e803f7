import Sentrik.Checks.Detection
import Sentrik.Discovery.Merge
import Sentrik.Library.Base64
import Sentrik.Library.Bytes

/-!
# Sessions of test accounts

An account is resolved into a session: by basic authentication, by a static header, or by a login that
posts the credentials to a configured address and reads a token or cookies from the response.

Establishing a session is an interaction. Its questions are the requests a login sends, one for each hop
of the redirects it follows; the answers are the responses, with the clock at which each is read.

**The HTTP library is a parameter**, as are the cipher of stored secrets and the runtime's library: how a
request is built from a payload, and the next request of a redirect, are supplied functions without laws.

What an account does before it sends anything is a pure function, `start`; `establish_session_run` says
that establishing a session is that start followed by the login it begins, if it begins one.
-/

namespace Sentrik.Sessions

open Discovery (HashKey hashKey)

/-- Microseconds since the epoch. -/
abbrev Instant := ℤ

/-! ### Accounts and sessions -/

/-- Credentials for authenticated testing. -/
structure TestAccount where
  role_name : Text := "user".toList
  auth_type : Text := "form".toList
  username : Text := []
  secret_enc : Text := []
  login_config : Dict := []
  owns_object_ids : List Json := []
  secret_rotated_at : Option Instant := none
  secret_ttl_days : ℤ := 0

inductive SessionStatus
  | active
  | pending_mfa
  | failed
  | stale
  deriving DecidableEq, Repr

structure SessionState where
  role_name : Text
  status : SessionStatus := .failed
  headers : Overrides := []
  cookies : Dict := []
  owns_object_ids : List Json := []
  mfa_token : Json := .null
  mfa_url : Json := .null
  expires_at : Option Instant := none
  detail : Text := []

def SessionState._is_expired (s : SessionState) (now : Instant) : Bool :=
  s.expires_at.any (· ≤ now)

def SessionState.to_auth_session (s : SessionState) (now : Instant) : AuthSession where
  role_name := s.role_name
  headers := s.headers
  owns_object_ids := s.owns_object_ids
  expired := s.status ≠ .active || s._is_expired now

/-! ### The login's traffic -/

/-- What can be raised while a session is established: an error of the HTTP library that is caught, one
of its errors that is not, or anything else. -/
inductive LoginError
  | HTTPError (message : Text)
  | InvalidURL (message : Text)
  | raised (exc : Raised)
  deriving DecidableEq

/-- A request of a login, with the payload it carries. -/
structure Outgoing where
  method : Text
  url : Text
  payload : Option Overrides := none

/-- The response to it, as it is read: the decoded body, the cookies of the jar, where it redirects to, and
the clock. -/
structure Incoming where
  status_code : ℕ
  json : Except Raised Json := .error .ValueError
  text : Text := []
  cookies : List (Text × Text) := []
  location : Option Text := none
  received : Instant := 0

abbrev LoginAnswer := Except LoginError Incoming

/-- A program over the login's own client. -/
abbrev LoginProgram (α : Type) := ExceptT LoginError (Interaction Outgoing LoginAnswer) α

/-- What the login uses of the HTTP library. -/
class LoginHttpx where
  /-- The request that posts a payload, as JSON or as form fields. -/
  post : (asJson : Bool) → Json → Overrides → Except LoginError Outgoing
  /-- The next request, if the response is a redirect. -/
  redirect : Outgoing → Incoming → Except LoginError (Option Outgoing)

/-- The cipher of stored secrets. -/
class Fernet where
  /-- The plaintext, if the token is valid. -/
  open? : Text → Option Text

def decrypt [f : Fernet] (token : Text) : Except Text Text :=
  match f.open? token with
  | some plaintext => .ok plaintext
  | none => .error "could not decrypt secret (wrong key or corrupted data)".toList

/-- An exception of plain code inside the login. -/
def lift {α : Type} (x : Except Raised α) : Except LoginError α := x.mapError .raised

/-! ### Dictionaries with any keys -/

section

variable [n : NumberTables]

/-- Write the entry of a key: the key that is there keeps its spelling. -/
def writeKey (k : HashKey) (key value : Json) : Overrides → Overrides
  | [] => [(key, value)]
  | e :: rest =>
    if (hashKey e.1).toOption = some k then (e.1, value) :: rest else e :: writeKey k key value rest

def setItem (d : Overrides) (key value : Json) : Except Raised Overrides := do
  let k ← hashKey key
  return writeKey k key value d

/-- An item that `update` reads as a key and a value. -/
def pairOf (item : Json) : Except Raised (Json × Json) := do
  match ← item.iter with
  | [key, value] => return (key, value)
  | _ => throw .ValueError

/-- `d.update(other)` -/
def update (d : Overrides) : Json → Except Raised Overrides
  | .obj fields => fields.foldlM (fun d e ↦ setItem d (.str e.1) e.2) d
  | other => do
    let items ← other.iter
    items.foldlM (fun d item ↦ do
      let (key, value) ← pairOf item
      setItem d key value) d

/-- The body of the login request. -/
def login_payload (account : TestAccount) (secret : Text) : Except Raised Overrides := do
  let cfg := account.login_config
  let payload ← setItem [] (cfg.getD "username_field" (Json.text "username")) (.str account.username)
  let payload ← setItem payload (cfg.getD "password_field" (Json.text "password")) (.str secret)
  update payload (cfg.getD "extra_fields" (.obj []))

end

/-! ### Reading the response -/

def json_path (data : Json) : List Text → Json
  | [] => data
  | part :: rest =>
    match data with
    | .obj fields =>
      match Dict.get? fields part with
      | some value => json_path value rest
      | none => .null
    | _ => .null

def _json_path (data path : Json) : Except Raised Json := do
  let path ← path.asText
  return json_path data (Text.split '.' path)

/-- `d.get(key)`, for a key of any type: only a text is among the keys of a decoded document. -/
def bodyGet (body : Dict) (key : Json) : Except Raised Json :=
  match key with
  | .str k => .ok ((body.get? k).getD .null)
  | .arr _ | .obj _ => .error .TypeError
  | _ => .ok .null

def _safe_json (resp : Incoming) : Except Raised Json :=
  match resp.json with
  | .ok body => .ok body
  | .error .ValueError | .error .TypeError =>
    .ok (.obj [("_raw".toList, .str (resp.text.take 2000))])
  | .error exc => .error exc

/-- The cookies of the jar by name. -/
def cookiesByName (jar : List (Text × Text)) : Dict :=
  jar.foldl (fun d e ↦ d.setItem e.1 (.str e.2)) []

/-- The last instant a date can have. -/
def lastInstant : Instant := 253402300799999999

/-- `now + timedelta(seconds=ttl)` -/
def after (now : Instant) (seconds : ℤ) : Except Raised Instant :=
  let t := now + seconds * 1000000
  if -62135596800000000 ≤ t ∧ t ≤ lastInstant then .ok t else .error .OverflowError

section

variable [u : UnicodeTables] [lib : StandardLibrary]

/-- `template.format(name=value)`; a value that is no text is filled in as it is rendered. -/
def fill (template : Json) (name : String) (value : Json) : Except Raised Text := do
  lib.format (← template.asText) [(name.toList, value.toText)]

/-- The header with the token, if there is one at the configured path. -/
def tokenHeader (cfg : Dict) (body : Json) : Except Raised (Except Text Overrides) := do
  let path := cfg.getD "token_json_path" (Json.text "token")
  let token ← match body with
    | .obj _ => _json_path body path
    | _ => .ok .null
  if token.truthy then
    let name := cfg.getD "token_header" (Json.text "Authorization")
    let value ← fill (cfg.getD "token_template" (Json.text "Bearer {token}")) "token" token
    return .ok (← override name (.str value))
  else
    return .error ("login succeeded but no token at ".toList ++ path.repr)

/-- The object ids the body assigns to the account. -/
def dynamicIds (cfg : Dict) (body : Json) : Except Raised Json :=
  let path := cfg.get "owns_object_json_path"
  match path.truthy, body with
  | true, .obj _ => _json_path body path
  | _, _ => .ok .null

/-- The session is active for as long as the configuration says. -/
def activate (cfg : Dict) (state : SessionState) (received : Instant) (body : Json) :
    Except Raised SessionState := do
  let ttl ← lib.int (cfg.getD "session_ttl_seconds" (.num "3600".toList false))
  let expires_at ← after received ttl
  let state := { state with
    expires_at := some expires_at, status := .active, detail := "authenticated".toList }
  match ← dynamicIds cfg body with
  | .null => return state
  | .arr items => return { state with owns_object_ids := items }
  | id => return { state with owns_object_ids := [id] }

def _apply_success (account : TestAccount) (state : SessionState) (resp : Incoming) (body : Json) :
    Except Raised SessionState := do
  let cfg := account.login_config
  if account.auth_type = "bearer".toList then
    match ← tokenHeader cfg body with
    | .ok headers => activate cfg { state with headers } resp.received body
    | .error detail => return { state with detail }
  else
    match cookiesByName resp.cookies with
    | [] => return { state with detail := "login succeeded but no session cookie set".toList }
    | cookies =>
      let cookie := List.intercalate "; ".toList (cookies.map fun e ↦ e.1 ++ '=' :: e.2.toText)
      activate cfg { state with cookies, headers := [(Json.text "Cookie", .str cookie)] }
        resp.received body

/-- What follows the response of the login. -/
def finish (account : TestAccount) (login_url : Json) (state : SessionState) (resp : Incoming) :
    Except Raised SessionState := do
  let cfg := account.login_config
  let body ← _safe_json resp
  let challenge ← match body with
    | .obj fields => bodyGet fields (cfg.getD "mfa_flag_field" (Json.text "mfa_required"))
    | _ => .ok .null
  match challenge.truthy, body with
  | true, .obj fields =>
    return { state with
      status := .pending_mfa
      mfa_token := ← bodyGet fields (cfg.getD "mfa_token_field" (Json.text "mfa_token"))
      mfa_url := cfg.getD "mfa_url" login_url
      detail := "MFA required; supply code via complete_mfa".toList }
  | _, _ =>
    if 400 ≤ resp.status_code then
      return { state with
        detail := "login failed with status ".toList ++ (toString resp.status_code).toList }
    else _apply_success account state resp body

end

/-! ### The age of a secret -/

/-- The stored secret has a lifetime and is past it. -/
def secret_is_stale (account : TestAccount) (now : Instant) : Except Raised Bool :=
  if account.secret_ttl_days ≤ 0 then .ok false
  else
    match account.secret_rotated_at with
    | none => .ok true
    | some rotated => do
      let until_ ← after rotated (account.secret_ttl_days * 86400)
      return until_ < now

/-- The clock decides only whether the secret is past its lifetime. -/
theorem stale_of_clocks (account : TestAccount) (now later : Instant) :
    secret_is_stale account now = .ok true ∨ secret_is_stale account later = .ok true ∨
      secret_is_stale account now = secret_is_stale account later := by
  simp only [secret_is_stale]
  split
  · exact .inr (.inr rfl)
  · cases account.secret_rotated_at with
    | none => exact .inl rfl
    | some rotated =>
      dsimp only
      cases after rotated (account.secret_ttl_days * 86400) with
      | error exc => exact .inr (.inr rfl)
      | ok last =>
        rcases lt_or_ge last now with hnow | hnow
        · exact .inl (congrArg Except.ok (decide_eq_true hnow))
        rcases lt_or_ge last later with hlater | hlater
        · exact .inr (.inl (congrArg Except.ok (decide_eq_true hlater)))
        · have hsame : decide (last < now) = decide (last < later) := by
            rw [decide_eq_false (not_lt.2 hnow), decide_eq_false (not_lt.2 hlater)]
          exact .inr (.inr (congrArg Except.ok hsame))

/-! ### The sessions that are no login -/

/-- The session before anything is known. -/
def initialState (account : TestAccount) : SessionState where
  role_name := account.role_name
  owns_object_ids := account.owns_object_ids

/-- The header of basic authentication. -/
def basicHeader (account : TestAccount) (secret : Text) : Overrides :=
  let raw := Base64.encode (Text.utf8 (account.username ++ ':' :: secret))
  [(Json.text "Authorization", .str ("Basic ".toList ++ raw))]

/-- The session of an account whose secret is past its lifetime. -/
def staleState (account : TestAccount) : SessionState where
  role_name := account.role_name
  owns_object_ids := account.owns_object_ids
  status := .stale
  detail := "stored secret is past its ".toList ++ (toString account.secret_ttl_days).toList ++
    "-day TTL; rotate it via POST /v1/targets/\x7bid\x7d/test-accounts/\x7bid\x7d/rotate-secret".toList

/-- The session of an account whose secret cannot be read. -/
def unreadableState (account : TestAccount) (message : Text) : SessionState :=
  { initialState account with detail := "could not decrypt credentials: ".toList ++ message }

/-- The session after an error of the HTTP library. -/
def unreachableState (account : TestAccount) (message : Text) : SessionState :=
  { initialState account with detail := "login request failed: ".toList ++ message }

/-- An error of the HTTP library is no exception but a failed session. -/
def caught (account : TestAccount) :
    Except LoginError (SessionState ⊕ Outgoing) → Except LoginError (SessionState ⊕ Outgoing)
  | .error (.HTTPError message) => .ok (.inl (unreachableState account message))
  | x => x

theorem caught_eq_inr {account : TestAccount} {x : Except LoginError (SessionState ⊕ Outgoing)}
    {r : Outgoing} : caught account x = .ok (.inr r) ↔ x = .ok (.inr r) := by
  cases x with
  | error exc =>
    cases exc with
    | HTTPError message => exact iff_of_false (fun h ↦ by cases h) fun h ↦ by cases h
    | InvalidURL message => exact Iff.rfl
    | raised exc => exact Iff.rfl
  | ok next => exact Iff.rfl

/-! ### Establishing a session -/

section

variable [u : UnicodeTables] [lib : StandardLibrary] [n : NumberTables] [httpx : LoginHttpx]
  [f : Fernet]

/-- The static header of an account. -/
def staticHeader (account : TestAccount) (secret : Text) : Except Raised Overrides := do
  let cfg := account.login_config
  let value ← fill (cfg.getD "value_template" (Json.text "Bearer {secret}")) "secret" (.str secret)
  override (cfg.getD "header_name" (Json.text "Authorization")) (.str value)

/-- How the login of an account starts: with a request, or not at all. -/
def loginStart (account : TestAccount) (secret : Text) (state : SessionState) :
    Except LoginError (SessionState ⊕ Outgoing) := do
  let cfg := account.login_config
  let login_url := cfg.get "login_url"
  if login_url.truthy then
    let payload ← lift (login_payload account secret)
    let asJson := cfg.getD "send_json" (.bool (account.auth_type = "bearer".toList))
    return .inr (← httpx.post asJson.truthy login_url payload)
  else
    return .inl { state with
      detail := "login_config.login_url required for bearer/form auth".toList }

/-- What the authentication type does with the secret before a request is sent. -/
def authenticate (account : TestAccount) (secret : Text) (state : SessionState) :
    Except LoginError (SessionState ⊕ Outgoing) :=
  if account.auth_type = "basic".toList then
    .ok (.inl { state with
      headers := basicHeader account secret, status := .active
      detail := "basic auth header set".toList })
  else if account.auth_type = "header".toList then do
    let headers ← lift (staticHeader account secret)
    return .inl { state with headers, status := .active, detail := "static header set".toList }
  else if account.auth_type = "bearer".toList ∨ account.auth_type = "form".toList then
    loginStart account secret state
  else
    .ok (.inl { state with
      detail := "unsupported auth_type ".toList ++ (Text.repr account.auth_type).toList })

/-- The plaintext of the stored secret. -/
def secretOf (account : TestAccount) : Except Text Text :=
  if account.secret_enc = [] then .ok [] else decrypt account.secret_enc

/-- Send a request and follow the redirects of its responses; `left` requests may be sent. -/
def follow : ℕ → Outgoing → LoginProgram Incoming
  | 0, _ => throw (.HTTPError "Exceeded maximum allowed redirects.".toList)
  | left + 1, request => do
    let resp ← Interaction.request request
    match ← MonadExcept.ofExcept (httpx.redirect request resp) with
    | some next => follow left next
    | none => return resp

/-- The library's limit on redirects, and the first request. -/
def maxRequests : ℕ := 21

/-- Send the login request and read the session off what comes back. -/
def _login (account : TestAccount) (request : Outgoing) : LoginProgram SessionState := do
  let resp ← follow maxRequests request
  MonadExcept.ofExcept
    (lift (finish account (account.login_config.get "login_url") (initialState account) resp))

/-- Log in, if the authentication type asks for it. -/
def signIn (account : TestAccount) (x : Except LoginError (SessionState ⊕ Outgoing)) :
    LoginProgram SessionState := do
  match ← MonadExcept.ofExcept x with
  | .inl state => return state
  | .inr request => _login account request

/-- Errors of the HTTP library become a failed session. -/
def recover (account : TestAccount) (m : LoginProgram SessionState) : LoginProgram SessionState := do
  match ← Interaction.attempt m with
  | .ok state => return state
  | .error (.HTTPError message) => return unreachableState account message
  | .error exc => throw exc

/-- Resolve an account into a session. -/
def establish_session (account : TestAccount) (now : Instant) : LoginProgram SessionState := do
  if ← MonadExcept.ofExcept (lift (secret_is_stale account now)) then return staleState account
  match secretOf account with
  | .error message => return unreadableState account message
  | .ok secret =>
    recover account (signIn account (authenticate account secret (initialState account)))

/-! ### What is done before anything is sent -/

/-- How establishing a session starts: it ends at once, or it begins a login with this request. -/
def start (account : TestAccount) (now : Instant) : Except LoginError (SessionState ⊕ Outgoing) := do
  if ← lift (secret_is_stale account now) then return .inl (staleState account)
  match secretOf account with
  | .error message => return .inl (unreadableState account message)
  | .ok secret =>
    caught account (authenticate account secret (initialState account))

/-- Go on from a start. -/
def goOn (account : TestAccount) : Except LoginError (SessionState ⊕ Outgoing) → LoginProgram SessionState
  | .error exc => throw exc
  | .ok (.inl state) => return state
  | .ok (.inr request) => recover account (_login account request)

omit n f in
theorem recover_signIn (account : TestAccount) (x : Except LoginError (SessionState ⊕ Outgoing)) :
    recover account (signIn account x) = goOn account (caught account x) := by
  cases x with
  | error exc =>
    cases exc with
    | HTTPError message => rfl
    | InvalidURL message => rfl
    | raised exc => rfl
  | ok next =>
    cases next with
    | inl state => rfl
    | inr request => rfl

/-- **Establishing a session is its start, and the login this begins.** -/
theorem establish_session_eq (account : TestAccount) (now : Instant) :
    establish_session account now = goOn account (start account now) := by
  rw [establish_session, start]
  cases secret_is_stale account now with
  | error exc => rfl
  | ok stale =>
    cases stale with
    | true => rfl
    | false =>
      cases secretOf account with
      | error message => rfl
      | ok secret => exact recover_signIn account _

/-- Establishing a session sends a login request. -/
def Sends (account : TestAccount) (now : Instant) : Prop := ∃ r, start account now = .ok (.inr r)

/-- Establishing a session raises before anything is sent. -/
def Breaks (account : TestAccount) (now : Instant) : Prop := ∃ exc, start account now = .error exc

theorem start_of_stale {account : TestAccount} {now : Instant}
    (h : secret_is_stale account now = .ok true) :
    start account now = .ok (.inl (staleState account)) := by
  rw [start, h]
  rfl

/-- Two starts of an account are the same, but for a secret that is stale at one of them. -/
theorem start_of_clocks (account : TestAccount) (now later : Instant) :
    start account now = .ok (.inl (staleState account)) ∨
      start account later = .ok (.inl (staleState account)) ∨ start account now = start account later := by
  rcases stale_of_clocks account now later with h | h | h
  · exact .inl (start_of_stale h)
  · exact .inr (.inl (start_of_stale h))
  · exact .inr (.inr (by rw [start, start, h]))

omit lib u f in
theorem loginStart_eq_inr {account : TestAccount} {secret : Text} {state : SessionState} {r : Outgoing} :
    loginStart account secret state = .ok (.inr r) ↔
      (account.login_config.get "login_url").truthy = true ∧
        ∃ payload, login_payload account secret = .ok payload ∧
          httpx.post (account.login_config.getD "send_json"
            (.bool (account.auth_type = "bearer".toList))).truthy
            (account.login_config.get "login_url") payload = .ok r := by
  rw [loginStart]
  dsimp only
  split
  next hurl =>
    cases login_payload account secret with
    | error exc => exact iff_of_false (fun h ↦ by cases h) fun h ↦ by obtain ⟨-, _, h, -⟩ := h; cases h
    | ok payload =>
      have hpost : ∀ x : Except LoginError Outgoing,
          (do return Sum.inr (← x) : Except LoginError (SessionState ⊕ Outgoing)) = .ok (.inr r) ↔
            x = .ok r := by
        intro x
        cases x with
        | error exc => exact iff_of_false (fun h ↦ by cases h) fun h ↦ by cases h
        | ok r' =>
          constructor
          · exact fun h ↦ congrArg Except.ok (Sum.inr.inj (Except.ok.inj h))
          · exact fun h ↦ congrArg Except.ok (congrArg Sum.inr (Except.ok.inj h))
      refine (hpost _).trans ⟨fun h ↦ ⟨hurl, payload, rfl, h⟩, ?_⟩
      rintro ⟨-, payload', hpayload, h⟩
      exact Except.ok.inj hpayload ▸ h
  next hurl => exact iff_of_false (fun h ↦ by cases h) fun h ↦ hurl h.1

omit f in
theorem authenticate_eq_inr {account : TestAccount} {secret : Text} {state : SessionState}
    {r : Outgoing} : authenticate account secret state = .ok (.inr r) ↔
      (account.auth_type = "bearer".toList ∨ account.auth_type = "form".toList) ∧
        loginStart account secret state = .ok (.inr r) := by
  rw [authenticate]
  split
  next hbasic =>
    refine iff_of_false (fun h ↦ by cases h) fun h ↦ ?_
    rw [hbasic] at h
    exact absurd h.1 (by decide)
  next hbasic =>
  split
  next hheader =>
    refine iff_of_false (fun h ↦ ?_) fun h ↦ ?_
    · cases hstatic : lift (staticHeader account secret) with
      | error exc =>
        rw [hstatic] at h
        cases h
      | ok headers =>
        rw [hstatic] at h
        cases h
    · rw [hheader] at h
      exact absurd h.1 (by decide)
  next hheader =>
  split
  next hlogin => exact (and_iff_right hlogin).symm
  next hlogin => exact iff_of_false (fun h ↦ by cases h) fun h ↦ hlogin h.1

/-- **What sends a login request**: an account that logs in, with a secret that is neither stale nor
unreadable, an address to log in at, and a request that the library builds from the payload. -/
theorem sends_iff {account : TestAccount} {now : Instant} :
    Sends account now ↔
      secret_is_stale account now = .ok false ∧
        (account.auth_type = "bearer".toList ∨ account.auth_type = "form".toList) ∧
        (account.login_config.get "login_url").truthy = true ∧
        ∃ secret payload r, secretOf account = .ok secret ∧
          login_payload account secret = .ok payload ∧
          httpx.post (account.login_config.getD "send_json"
            (.bool (account.auth_type = "bearer".toList))).truthy
            (account.login_config.get "login_url") payload = .ok r := by
  have hstart : Sends account now ↔ secret_is_stale account now = .ok false ∧
      ∃ secret, secretOf account = .ok secret ∧
        ∃ r, authenticate account secret (initialState account) = .ok (.inr r) := by
    rw [Sends, start]
    cases secret_is_stale account now with
    | error exc => exact iff_of_false (fun ⟨_, h⟩ ↦ by cases h) fun h ↦ by cases h.1
    | ok stale =>
      cases stale with
      | true => exact iff_of_false (fun ⟨_, h⟩ ↦ by cases h) fun h ↦ by cases h.1
      | false =>
        cases secretOf account with
        | error message =>
          exact iff_of_false (fun ⟨_, h⟩ ↦ by cases h) fun ⟨_, _, h, _⟩ ↦ by cases h
        | ok secret =>
          constructor
          · rintro ⟨r, h⟩
            exact ⟨rfl, secret, rfl, r, caught_eq_inr.1 h⟩
          · rintro ⟨-, secret', hsecret, r, h⟩
            obtain rfl := Except.ok.inj hsecret
            exact ⟨r, caught_eq_inr.2 h⟩
  rw [hstart]
  constructor
  · rintro ⟨hstale, secret, hsecret, r, h⟩
    obtain ⟨htype, hlogin⟩ := authenticate_eq_inr.1 h
    obtain ⟨hurl, payload, hpayload, hpost⟩ := loginStart_eq_inr.1 hlogin
    exact ⟨hstale, htype, hurl, secret, payload, r, hsecret, hpayload, hpost⟩
  · rintro ⟨hstale, htype, hurl, secret, payload, r, hsecret, hpayload, hpost⟩
    have hlogin : loginStart account secret (initialState account) = .ok (.inr r) :=
      loginStart_eq_inr.2 ⟨hurl, payload, hpayload, hpost⟩
    exact ⟨hstale, secret, hsecret, r, authenticate_eq_inr.2 ⟨htype, hlogin⟩⟩

end

end Sentrik.Sessions
