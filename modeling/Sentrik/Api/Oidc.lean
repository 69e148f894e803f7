import Mathlib.Data.Rat.Defs
import Sentrik.Api.Identity
import Sentrik.Checks.Client
import Sentrik.Library.TimedCache

/-!
# Single sign-on

A login with the identity token of a provider. The token is checked against a key of the provider, whose
key set is fetched, discovered where its address is not configured, and kept for five minutes. Logins wait
for the provider and for the database, so they overlap, and one may use the key set another has fetched.

## Main results

* `accepted_of_run`: whatever overlaps, an accepted token has an asymmetric algorithm and a key that the
  provider has given out within the last five minutes; so a key that it gives out no more is not accepted
  after that.
* `identity_of_run`: towards users, organizations and keys single sign-on is the login of the identity
  store, with an address that an accepted token names.
-/

namespace Sentrik

open TimedCache

/-! ### Verifying a token -/

structure OidcSettings where
  oidc_enabled : Bool := false
  oidc_issuer : Text := []
  oidc_audience : Text := []
  oidc_jwks_url : Text := []
  oidc_email_claim : Text := "email".toList

/-- A `ValueError` with its message, which the handler answers with, or another exception. -/
inductive OidcError
  | value (message : String)
  | raised (exc : Raised)

/-- The token library: an error of its own, or another exception. -/
inductive JoseError
  | jwt (message : String)
  | raised (exc : Raised)

class JoseLibrary where
  get_unverified_header : Text → Except JoseError Dict
  /-- Verify and decode a token, at a time. -/
  decode (token : Text) (key : Json) (algorithms : List Text) (audience issuer : Text) (now : ℤ) :
    Except JoseError Dict

/-- Only asymmetric signature algorithms are permitted. -/
def _ALLOWED_ALGS : List Text :=
  ["RS256", "RS384", "RS512", "ES256", "ES384", "ES512"].map String.toList

def _JWKS_TTL_SECONDS : ℚ := 300

/-- An error of the library under a prefix. -/
def JoseError.under (what : String) : JoseError → OidcError
  | jwt message => .value (what ++ message)
  | raised exc => .raised exc

section

variable (settings : OidcSettings) (same : Json → Json → Bool) [u : UnicodeTables] [jose : JoseLibrary]

/-- The key of the cache: where the key set is, or else who gives it out. -/
def cacheKey : Except OidcError Text :=
  let jwks_url := Text.strip settings.oidc_jwks_url
  let cache_key := if jwks_url = [] then Text.strip settings.oidc_issuer else jwks_url
  if cache_key = [] then .error (.value "OIDC: neither oidc_jwks_url nor oidc_issuer is configured")
  else .ok cache_key

/-- The steps before the key set is asked for: the header of the token, and the key of the cache. -/
def precheck (token : Text) : Except OidcError (Dict × Text) := do
  if !settings.oidc_enabled then throw (.value "OIDC not enabled")
  if token = [] then throw (.value "OIDC: empty id_token")
  let header ← (jose.get_unverified_header token).mapError (JoseError.under "OIDC: malformed token header: ")
  let alg := header.get "alg"
  if !_ALLOWED_ALGS.any alg.is then
    throw (.value ("OIDC: refusing token with algorithm " ++ String.ofList alg.repr ++ "; only asymmetric " ++
      Text.renderList (_ALLOWED_ALGS.map Text.repr) ++ " accepted"))
  if Text.strip settings.oidc_audience = [] then throw (.value "OIDC: oidc_audience is not configured")
  if Text.strip settings.oidc_issuer = [] then throw (.value "OIDC: oidc_issuer is not configured")
  return (header, ← cacheKey settings)

/-- How a fetch ends badly. -/
inductive OidcFetchError
  | http (exc : String)
  | invalid (exc : String)

/-- `_fetch_json` -/
def _fetch_json (url : Text) : Except OidcFetchError Json → Except OidcError Json
  | .ok doc => .ok doc
  | .error (.http exc) => .error (.value ("OIDC network error fetching " ++ Text.repr url ++ ": " ++ exc))
  | .error (.invalid exc) => .error (.value ("OIDC: invalid JSON from " ++ Text.repr url ++ ": " ++ exc))

def discoveryUrl : Text :=
  ((Text.strip settings.oidc_issuer).reverse.dropWhile (· == '/')).reverse ++
    "/.well-known/openid-configuration".toList

/-- The address of the key set, from the discovery document. -/
def discovered (reply : Except OidcFetchError Json) : Except OidcError Text := do
  let doc ← _fetch_json (discoveryUrl settings) reply
  let doc ← doc.asDict.mapError .raised
  let url ← (doc.getD "jwks_uri" (Json.text "")).asText.mapError .raised
  let jwks_url := Text.strip url
  if jwks_url = [] then
    throw (.value ("OIDC discovery at " ++ Text.repr (discoveryUrl settings) ++
      " did not provide a 'jwks_uri'"))
  return jwks_url

/-- The key set, from its document. -/
def keySet (jwks_url : Text) (reply : Except OidcFetchError Json) : Except OidcError Dict := do
  let noKeys : OidcError := .value ("OIDC JWKS at " ++ Text.repr jwks_url ++ " has no 'keys'")
  match ← _fetch_json jwks_url reply with
  | .obj jwks => if (Dict.get jwks "keys").truthy then return jwks else throw noKeys
  | _ => throw noKeys

omit u jose in
/-- The first of the keys with an identifier. -/
def keyOf (kid : Json) : List Json → Except Raised (Option Json)
  | [] => return none
  | key :: rest => do
    let fields ← key.asDict
    if same (fields.get "kid") kid then return some key else keyOf kid rest

omit u jose in
/-- The only item of a value. -/
def soleItem (keys : Json) (other : OidcError) : Except OidcError Json :=
  match keys with
  | .arr [key] => .ok key
  | .str [c] => .ok (.str [c])
  | .obj [_] => .error (.raised .KeyError)
  | .arr _ | .str _ | .obj _ => .error other
  | _ => .error (.raised .TypeError)

/-- Pick the key that matches the token's `kid`, or the sole key if none is given. -/
def _select_key (jwks : Dict) (kid : Json) : Except OidcError Json :=
  let keys := (jwks.get "keys").or (.arr [])
  if kid.truthy then do
    let items ← keys.iter.mapError .raised
    match ← (keyOf same kid items).mapError .raised with
    | some key => return key
    | none => throw (.value ("OIDC: no JWKS key matches token kid " ++ String.ofList kid.repr))
  else soleItem keys (.value "OIDC: token has no 'kid' and JWKS has multiple keys")

/-- The claims of a token, under a key. -/
def claimsOf (token : Text) (key : Json) (clock : ℤ) : Except OidcError Dict :=
  (jose.decode token key _ALLOWED_ALGS settings.oidc_audience settings.oidc_issuer clock).mapError
    (JoseError.under "OIDC: id_token verification failed: ")

/-- The address that the claims name. -/
def emailOf (claims : Dict) : Except OidcError Text :=
  let email_claim := if settings.oidc_email_claim = [] then "email".toList else settings.oidc_email_claim
  match (claims.get? email_claim).getD .null with
  | .str (c :: t) => .ok (c :: t)
  | _ => .error (.value ("OIDC: token has no usable " ++ Text.repr email_claim ++ " claim"))

end

/-! ### Logins -/

/-- How far a login is. -/
inductive LoginPhase
  /-- It waits for the discovery document. -/
  | discovering
  /-- It waits for the key set. -/
  | fetching (jwks_url : Text)
  /-- It waits for the users with this address. -/
  | querying (email : Text)
  | failed (error : OidcError)
  | answered

structure SsoLogin where
  id_token : Text
  header : Dict := []
  cache_key : Text := []
  phase : LoginPhase

/-- A token whose signature and claims have been verified. -/
structure Acceptance where
  id_token : Text
  header : Dict
  cache_key : Text
  jwks : Dict
  key : Json
  claims : Dict
  /-- The monotonic clock then. -/
  time : ℚ

/-- The server: the tables, the cache of key sets, and the monotonic clock; `received` and `accepted` are
what has come in and what has been accepted so far. -/
structure SsoServer where
  identity : IdentityStore
  cache : List (Text × Entry Dict ℚ) := []
  now : ℚ := 0
  logins : List SsoLogin := []
  received : List (Receipt Text Dict ℚ) := []
  accepted : List Acceptance := []

inductive SsoEvent
  | begin (id_token : Text)
  /-- What a login waits for from the provider comes in, or fails. -/
  | reply (i : ℕ) (doc : Except OidcFetchError Json)
  /-- The database answers a login; `token` is the text of the access token. -/
  | query (i : ℕ) (token : Text)
  /-- Another request, or a change of the tables. -/
  | other (e : IdentityEvent)
  | wait (seconds : ℚ)
  /-- `_clear_jwks_cache` -/
  | clear
  /-- The process is started anew. -/
  | restart

/-- The event is a login with an identity token. -/
def IdentityEvent.signsOn : IdentityEvent → Bool
  | .login_with_id_token .. => true
  | _ => false

namespace SsoServer

section

variable (settings : OidcSettings) (same : Json → Json → Bool) (_pwd : CryptContext)
  (access_token_ttl_minutes : ℕ) [u : UnicodeTables] [jose : JoseLibrary]

/-- With the key set at hand the token is verified, and then the users are asked for. -/
def verify (s : SsoServer) (l : SsoLogin) (jwks : Dict) : SsoLogin × List Acceptance :=
  match _select_key same jwks (l.header.get "kid") with
  | .error e => ({ l with phase := .failed e }, [])
  | .ok key =>
    match claimsOf settings l.id_token key s.identity.clock with
    | .error e => ({ l with phase := .failed e }, [])
    | .ok claims =>
      let accepted : List Acceptance := [{
        id_token := l.id_token
        header := l.header
        cache_key := l.cache_key
        jwks, key, claims
        time := s.now }]
      match emailOf settings claims with
      | .error e => ({ l with phase := .failed e }, accepted)
      | .ok email => ({ l with phase := .querying email }, accepted)

/-- A new login, up to where it waits. -/
def start (s : SsoServer) (id_token : Text) : SsoServer :=
  match precheck settings id_token with
  | .error e => { s with logins := s.logins ++ [{ id_token, phase := .failed e }] }
  | .ok (header, cache_key) =>
    match fresh s.cache cache_key s.now with
    | some jwks =>
      let (l, accepted) := s.verify settings same { id_token, header, cache_key, phase := .discovering } jwks
      { s with logins := s.logins ++ [l], accepted := s.accepted ++ accepted }
    | none =>
      let jwks_url := Text.strip settings.oidc_jwks_url
      let phase := if jwks_url = [] then .discovering else .fetching jwks_url
      { s with logins := s.logins ++ [{ id_token, header, cache_key, phase }] }

/-- The reply of the provider to a login. -/
def reply (s : SsoServer) (i : ℕ) (l : SsoLogin) (doc : Except OidcFetchError Json) : Option SsoServer :=
  match l.phase with
  | .discovering =>
    let phase :=
      match discovered settings doc with
      | .ok jwks_url => .fetching jwks_url
      | .error e => .failed e
    some { s with logins := s.logins.set i { l with phase } }
  | .fetching jwks_url =>
    match keySet jwks_url doc with
    | .error e => some { s with logins := s.logins.set i { l with phase := .failed e } }
    | .ok jwks =>
      let r : Receipt Text Dict ℚ := ⟨l.cache_key, s.now, jwks⟩
      let (l, accepted) := s.verify settings same l jwks
      some { s with
        cache := store s.cache _JWKS_TTL_SECONDS r
        received := s.received ++ [r]
        logins := s.logins.set i l
        accepted := s.accepted ++ accepted }
  | _ => none

/-- One step. A login changes the tables as that of the identity store does. -/
def step (s : SsoServer) : SsoEvent → Option SsoServer
  | .begin id_token => some (s.start settings same id_token)
  | .reply i doc => (s.logins[i]?).bind fun l ↦ s.reply settings same i l doc
  | .query i token =>
    (s.logins[i]?).bind fun l ↦
      match l.phase with
      | .querying email =>
        (s.identity.step _pwd access_token_ttl_minutes (.login_with_id_token email token)).map fun identity ↦
          { s with identity, logins := s.logins.set i { l with phase := .answered } }
      | _ => none
  | .other e =>
    if e.signsOn then none
    else (s.identity.step _pwd access_token_ttl_minutes e).map fun identity ↦ { s with identity }
  | .wait seconds => if 0 ≤ seconds then some { s with now := s.now + seconds } else none
  | .clear => some { s with cache := [] }
  | .restart => some { s with cache := [], logins := [] }

/-! ### What a verification leaves -/

/-- The token of a login was admitted. -/
def Admitted (l : SsoLogin) : Prop := precheck settings l.id_token = .ok (l.header, l.cache_key)

/-- The login waits for the provider. -/
def Waits (l : SsoLogin) : Prop := l.phase = .discovering ∨ ∃ jwks_url, l.phase = .fetching jwks_url

/-- An acceptance follows the rules, with a key set that was received within the last five minutes. -/
structure Justified (received : List (Receipt Text Dict ℚ)) (a : Acceptance) : Prop where
  admitted : precheck settings a.id_token = .ok (a.header, a.cache_key)
  selected : _select_key same a.jwks (a.header.get "kid") = .ok a.key
  claims : ∃ clock, claimsOf settings a.id_token a.key clock = .ok a.claims
  recent : ∃ r ∈ received, r.key = a.cache_key ∧ r.value = a.jwks ∧ r.time ≤ a.time ∧
    a.time < r.time + _JWKS_TTL_SECONDS

/-- A login waits for users only with an address that an accepted token names. -/
def Named (accepted : List Acceptance) (l : SsoLogin) : Prop :=
  ∀ email, l.phase = .querying email → ∃ a ∈ accepted, emailOf settings a.claims = .ok email

variable {settings same} {s s' : SsoServer} {l : SsoLogin} {jwks : Dict}

omit jose in
theorem Named.mono {accepted accepted' : List Acceptance} (h : Named settings accepted l)
    (hsub : accepted ⊆ accepted') : Named settings accepted' l := by
  intro email hphase
  obtain ⟨a, ha, hemail⟩ := h email hphase
  exact ⟨a, hsub ha, hemail⟩

theorem Justified.mono {received received' : List (Receipt Text Dict ℚ)} {a : Acceptance}
    (h : Justified settings same received a) (hsub : received ⊆ received') :
    Justified settings same received' a := by
  obtain ⟨r, hr, hrecent⟩ := h.recent
  exact ⟨h.admitted, h.selected, h.claims, r, hsub hr, hrecent⟩

/-- A verified login waits for the provider no more. -/
theorem verify_not_waits (s : SsoServer) (l : SsoLogin) (jwks : Dict) :
    ¬Waits (s.verify settings same l jwks).1 := by
  rw [verify]
  split
  · rintro (h | ⟨_, h⟩) <;> cases h
  split
  · rintro (h | ⟨_, h⟩) <;> cases h
  dsimp only
  split <;> (rintro (h | ⟨_, h⟩) <;> cases h)

theorem verify_named (s : SsoServer) (l : SsoLogin) (jwks : Dict) :
    Named settings (s.verify settings same l jwks).2 (s.verify settings same l jwks).1 := by
  intro email
  rw [verify]
  split
  · intro h
    cases h
  split
  · intro h
    cases h
  dsimp only
  split
  · intro h
    cases h
  · next claims _ email' hemail =>
    intro h
    obtain rfl := LoginPhase.querying.inj h
    exact ⟨_, List.mem_cons_self, hemail⟩

/-- What a verification accepts is justified where the key set was received lately. -/
theorem verify_justified {received : List (Receipt Text Dict ℚ)} (hl : Admitted settings l)
    (hrecent : ∃ r ∈ received, r.key = l.cache_key ∧ r.value = jwks ∧ r.time ≤ s.now ∧
      s.now < r.time + _JWKS_TTL_SECONDS) :
    ∀ a ∈ (s.verify settings same l jwks).2, Justified settings same received a := by
  intro a
  rw [verify]
  split
  · exact fun ha ↦ absurd ha List.not_mem_nil
  next key hkey =>
  split
  · exact fun ha ↦ absurd ha List.not_mem_nil
  next claims hclaims =>
  have hone : ∀ {l' : SsoLogin}, a ∈ (l', [({
      id_token := l.id_token
      header := l.header
      cache_key := l.cache_key
      jwks, key, claims
      time := s.now } : Acceptance)]).2 → Justified settings same received a := by
    intro l' ha
    obtain rfl := List.mem_singleton.1 ha
    exact ⟨hl, hkey, ⟨_, hclaims⟩, hrecent⟩
  dsimp only
  split <;> exact hone

/-! ### The invariant -/

variable (settings same) in
/-- What holds of the server in every run. -/
structure Inv (s : SsoServer) : Prop where
  sound : Sound _JWKS_TTL_SECONDS s.received s.cache
  past : ∀ r ∈ s.received, r.time ≤ s.now
  admitted : ∀ l ∈ s.logins, Waits l → Admitted settings l
  named : ∀ l ∈ s.logins, Named settings s.accepted l
  justified : ∀ a ∈ s.accepted, Justified settings same s.received a

/-- A login that neither waits for the provider nor for users adds nothing. -/
theorem Inv.settled (h : Inv settings same s) {logins : List SsoLogin}
    (hlogins : ∀ l ∈ logins, l ∈ s.logins ∨ (∀ email, l.phase ≠ .querying email) ∧
      (Waits l → Admitted settings l)) : Inv settings same { s with logins } where
  sound := h.sound
  past := h.past
  admitted l hl := (hlogins l hl).elim (h.admitted l) fun hl ↦ hl.2
  named l hl := (hlogins l hl).elim (h.named l) fun hl email hphase ↦ absurd hphase (hl.1 email)
  justified := h.justified

/-- A verification adds what is justified. -/
theorem Inv.verified (h : Inv settings same s) {received : List (Receipt Text Dict ℚ)}
    {cache : List (Text × Entry Dict ℚ)} {logins : List SsoLogin} (hl : Admitted settings l)
    (hsound : Sound _JWKS_TTL_SECONDS received cache) (hpast : ∀ r ∈ received, r.time ≤ s.now)
    (hsub : s.received ⊆ received)
    (hrecent : ∃ r ∈ received, r.key = l.cache_key ∧ r.value = jwks ∧ r.time ≤ s.now ∧
      s.now < r.time + _JWKS_TTL_SECONDS)
    (hlogins : ∀ l' ∈ logins, l' ∈ s.logins ∨ l' = (s.verify settings same l jwks).1) :
    Inv settings same { s with
      cache, received, logins
      accepted := s.accepted ++ (s.verify settings same l jwks).2 } where
  sound := hsound
  past := hpast
  admitted l' hl' hwaits := (hlogins l' hl').elim (fun hmem ↦ h.admitted l' hmem hwaits)
    fun heq ↦ absurd (heq ▸ hwaits) (verify_not_waits s l jwks)
  named l' hl' := by
    rcases hlogins l' hl' with hmem | rfl
    · exact (h.named l' hmem).mono (List.subset_append_left _ _)
    · exact (verify_named s l jwks).mono (List.subset_append_right _ _)
  justified a ha := by
    rcases List.mem_append.1 ha with ha | ha
    · exact (h.justified a ha).mono hsub
    · exact verify_justified hl hrecent a ha

theorem Inv.start (h : Inv settings same s) (id_token : Text) :
    Inv settings same (s.start settings same id_token) := by
  rw [SsoServer.start]
  cases hprecheck : precheck settings id_token with
  | error e =>
    refine h.settled fun l hl ↦ (List.mem_append.1 hl).imp_right fun hl ↦ ?_
    obtain rfl := List.mem_singleton.1 hl
    exact ⟨fun _ hphase ↦ (by cases hphase), fun hwaits ↦ by rcases hwaits with hw | ⟨_, hw⟩ <;> cases hw⟩
  | ok admitted =>
    obtain ⟨header, cache_key⟩ := admitted
    dsimp only
    cases hfresh : fresh s.cache cache_key s.now with
    | some jwks =>
      obtain ⟨r, hr, hkey, hvalue, hlt⟩ := h.sound.receipt_of_fresh hfresh
      exact h.verified (l := { id_token, header, cache_key, phase := .discovering }) hprecheck h.sound h.past
        (List.Subset.refl _) ⟨r, hr, hkey, hvalue, h.past r hr, hlt⟩
        fun l' hl' ↦ (List.mem_append.1 hl').imp_right List.mem_singleton.1
    | none =>
      refine h.settled fun l hl ↦ (List.mem_append.1 hl).imp_right fun hl ↦ ?_
      obtain rfl := List.mem_singleton.1 hl
      refine ⟨fun email hphase ↦ ?_, fun _ ↦ hprecheck⟩
      dsimp only at hphase
      split at hphase <;> cases hphase

theorem Inv.reply (h : Inv settings same s) {i : ℕ} (hget : s.logins[i]? = some l)
    {doc : Except OidcFetchError Json} (hs : s.reply settings same i l doc = some s') :
    Inv settings same s' := by
  have hmem := List.mem_of_getElem? hget
  rw [SsoServer.reply] at hs
  split at hs
  next hphase =>
    obtain rfl := Option.some.inj hs
    have hadmitted := h.admitted l hmem (.inl hphase)
    refine h.settled fun l' hl' ↦ (List.mem_or_eq_of_mem_set hl').imp_right ?_
    rintro rfl
    refine ⟨fun email heq ↦ ?_, fun _ ↦ hadmitted⟩
    dsimp only at heq
    split at heq <;> cases heq
  next jwks_url hphase =>
    have hadmitted := h.admitted l hmem (.inr ⟨jwks_url, hphase⟩)
    split at hs
    next e _ =>
      obtain rfl := Option.some.inj hs
      refine h.settled fun l' hl' ↦ (List.mem_or_eq_of_mem_set hl').imp_right ?_
      rintro rfl
      exact ⟨fun _ heq ↦ (by cases heq), fun _ ↦ hadmitted⟩
    next jwks _ =>
      obtain rfl := Option.some.inj hs
      have hnow : s.now < s.now + _JWKS_TTL_SECONDS := lt_add_of_pos_right _ (by decide +kernel)
      refine h.verified hadmitted (h.sound.store _) (fun r hr ↦ ?_) (List.subset_append_left _ _)
        ⟨⟨l.cache_key, s.now, jwks⟩, List.mem_append_right _ List.mem_cons_self, rfl, rfl, le_rfl, hnow⟩
        fun l' hl' ↦ List.mem_or_eq_of_mem_set hl'
      rcases List.mem_append.1 hr with hr | hr
      · exact h.past r hr
      · obtain rfl := List.mem_singleton.1 hr
        exact le_rfl
  next => cases hs

theorem Inv.step {_pwd : CryptContext} {access_token_ttl_minutes : ℕ} {e : SsoEvent} (h : Inv settings same s)
    (hs : s.step settings same _pwd access_token_ttl_minutes e = some s') : Inv settings same s' := by
  cases e with
  | begin id_token => exact Option.some.inj hs ▸ h.start id_token
  | reply i doc =>
    obtain ⟨l, hget, hs⟩ := Option.bind_eq_some_iff.1 hs
    exact h.reply hget hs
  | query i token =>
    obtain ⟨l, hget, hs⟩ := Option.bind_eq_some_iff.1 hs
    split at hs
    next email _ =>
      obtain ⟨identity, -, rfl⟩ := Option.map_eq_some_iff.1 hs
      refine @Inv.settled _ _ _ _ { s with identity } ⟨h.sound, h.past, h.admitted, h.named, h.justified⟩ _
        fun l' hl' ↦ (List.mem_or_eq_of_mem_set hl').imp_right ?_
      rintro rfl
      exact ⟨fun _ heq ↦ (by cases heq), fun hwaits ↦ by rcases hwaits with hw | ⟨_, hw⟩ <;> cases hw⟩
    next => cases hs
  | other e =>
    rw [SsoServer.step] at hs
    split at hs
    · cases hs
    · obtain ⟨identity, -, rfl⟩ := Option.map_eq_some_iff.1 hs
      exact ⟨h.sound, h.past, h.admitted, h.named, h.justified⟩
  | wait seconds =>
    rw [SsoServer.step] at hs
    split at hs
    next hpos =>
      obtain rfl := Option.some.inj hs
      exact ⟨h.sound, fun r hr ↦ (h.past r hr).trans (le_add_of_nonneg_right hpos), h.admitted, h.named,
        h.justified⟩
    next => cases hs
  | clear =>
    obtain rfl := Option.some.inj hs
    exact ⟨Sound.nil, h.past, h.admitted, h.named, h.justified⟩
  | restart =>
    obtain rfl := Option.some.inj hs
    exact ⟨Sound.nil, h.past, fun l hl ↦ absurd hl List.not_mem_nil, fun l hl ↦ absurd hl List.not_mem_nil,
      h.justified⟩

/-! ### Runs -/

omit u jose in
theorem eq_str_of_is {value : Json} {t : Text} (h : value.is t = true) : value = .str t := by
  cases value with
  | str s => rw [of_decide_eq_true h]
  | _ => cases h

theorem alg_of_precheck {token cache_key : Text} {header : Dict}
    (h : precheck settings token = .ok (header, cache_key)) : ∃ alg ∈ _ALLOWED_ALGS, header.get "alg" = .str alg := by
  rw [precheck] at h
  simp only [bind, Except.bind, throw, throwThe, MonadExceptOf.throw] at h
  split at h
  · cases h
  split at h
  · cases h
  split at h
  · cases h
  next header' _ =>
  split at h
  · cases h
  next halg =>
  split at h
  · cases h
  split at h
  · cases h
  split at h
  · cases h
  obtain ⟨rfl, -⟩ := Prod.mk.inj (Except.ok.inj h)
  have hany : _ALLOWED_ALGS.any (header'.get "alg").is = true := by simpa using halg
  obtain ⟨alg, hmem, his⟩ := List.any_eq_true.1 hany
  exact ⟨alg, hmem, eq_str_of_is his⟩

/-- What has been accepted stays accepted. -/
theorem accepted_subset {_pwd : CryptContext} {access_token_ttl_minutes : ℕ} {e : SsoEvent}
    (hs : s.step settings same _pwd access_token_ttl_minutes e = some s') : s.accepted ⊆ s'.accepted := by
  cases e with
  | begin id_token =>
    obtain rfl := Option.some.inj hs
    rw [SsoServer.start]
    split
    · exact List.Subset.refl _
    dsimp only
    split
    · exact List.subset_append_left _ _
    · exact List.Subset.refl _
  | reply i doc =>
    obtain ⟨l, -, hs⟩ := Option.bind_eq_some_iff.1 hs
    rw [SsoServer.reply] at hs
    split at hs
    · obtain rfl := Option.some.inj hs
      exact List.Subset.refl _
    · split at hs
      · obtain rfl := Option.some.inj hs
        exact List.Subset.refl _
      · obtain rfl := Option.some.inj hs
        exact List.subset_append_left _ _
    · cases hs
  | query i token =>
    obtain ⟨l, -, hs⟩ := Option.bind_eq_some_iff.1 hs
    split at hs
    · obtain ⟨identity, -, rfl⟩ := Option.map_eq_some_iff.1 hs
      exact List.Subset.refl _
    · cases hs
  | other e =>
    rw [SsoServer.step] at hs
    split at hs
    · cases hs
    · obtain ⟨identity, -, rfl⟩ := Option.map_eq_some_iff.1 hs
      exact List.Subset.refl _
  | wait seconds =>
    rw [SsoServer.step] at hs
    split at hs
    · obtain rfl := Option.some.inj hs
      exact List.Subset.refl _
    · cases hs
  | clear => exact Option.some.inj hs ▸ List.Subset.refl _
  | restart => exact Option.some.inj hs ▸ List.Subset.refl _

/-- The tables change as in the identity store. -/
theorem identity_of_step {_pwd : CryptContext} {access_token_ttl_minutes : ℕ} {e : SsoEvent}
    (hs : s.step settings same _pwd access_token_ttl_minutes e = some s') : s'.identity = s.identity ∨
      ∃ ie, s.identity.step _pwd access_token_ttl_minutes ie = some s'.identity ∧
        ∀ email token, ie = .login_with_id_token email token → ∃ l ∈ s.logins, l.phase = .querying email := by
  cases e with
  | begin id_token =>
    left
    obtain rfl := Option.some.inj hs
    rw [SsoServer.start]
    split
    · rfl
    dsimp only
    split <;> rfl
  | reply i doc =>
    left
    obtain ⟨l, -, hs⟩ := Option.bind_eq_some_iff.1 hs
    rw [SsoServer.reply] at hs
    split at hs
    · exact Option.some.inj hs ▸ rfl
    · split at hs <;> exact Option.some.inj hs ▸ rfl
    · cases hs
  | query i token =>
    obtain ⟨l, hget, hs⟩ := Option.bind_eq_some_iff.1 hs
    split at hs
    next email hphase =>
      obtain ⟨identity, hidentity, rfl⟩ := Option.map_eq_some_iff.1 hs
      refine .inr ⟨_, hidentity, fun email' token' heq ↦ ⟨l, List.mem_of_getElem? hget, ?_⟩⟩
      rw [hphase, (IdentityEvent.login_with_id_token.inj heq).1]
    next => cases hs
  | other e =>
    rw [SsoServer.step] at hs
    split at hs
    next => cases hs
    next hsigns =>
      obtain ⟨identity, hidentity, rfl⟩ := Option.map_eq_some_iff.1 hs
      refine .inr ⟨e, hidentity, fun email token heq ↦ absurd ?_ hsigns⟩
      rw [heq]
      rfl
  | wait seconds =>
    left
    rw [SsoServer.step] at hs
    split at hs
    · exact Option.some.inj hs ▸ rfl
    · cases hs
  | clear => exact .inl (Option.some.inj hs ▸ rfl)
  | restart => exact .inl (Option.some.inj hs ▸ rfl)

variable {_pwd : CryptContext} {access_token_ttl_minutes : ℕ} {identity : IdentityStore} {now : ℚ}
  {es : List SsoEvent}

theorem Inv.of_run (h : Machine.run (SsoServer.step settings same _pwd access_token_ttl_minutes) { identity, now } es =
    some s) : Inv settings same s :=
  Machine.inv_of_run (fun hI hs ↦ hI.step hs) h
    ⟨Sound.nil, fun _ hr ↦ absurd hr List.not_mem_nil, fun _ hl ↦ absurd hl List.not_mem_nil,
      fun _ hl ↦ absurd hl List.not_mem_nil, fun _ ha ↦ absurd ha List.not_mem_nil⟩

/-- **An accepted token** has an asymmetric algorithm, was verified under the key that a received key set
selects for it, and if from some time on none that was received does so any more, it was accepted less than
five minutes after that. -/
theorem accepted_of_run (h : Machine.run (SsoServer.step settings same _pwd access_token_ttl_minutes)
    { identity, now } es = some s) {a : Acceptance} (ha : a ∈ s.accepted) :
    (∃ alg ∈ _ALLOWED_ALGS, a.header.get "alg" = .str alg) ∧
      (∃ clock, jose.decode a.id_token a.key _ALLOWED_ALGS settings.oidc_audience settings.oidc_issuer clock =
        .ok a.claims) ∧
      ∀ withdrawn : ℚ, (∀ r ∈ s.received, withdrawn ≤ r.time → r.key = a.cache_key →
          _select_key same r.value (a.header.get "kid") ≠ .ok a.key) →
        a.time < withdrawn + _JWKS_TTL_SECONDS := by
  have hjust := (Inv.of_run h).justified a ha
  obtain ⟨clock, hclaims⟩ := hjust.claims
  refine ⟨alg_of_precheck hjust.admitted, ⟨clock, ?_⟩, fun withdrawn hgone ↦ ?_⟩
  · rw [claimsOf] at hclaims
    cases hdecode : jose.decode a.id_token a.key _ALLOWED_ALGS settings.oidc_audience settings.oidc_issuer
        clock with
    | error e =>
      rw [hdecode] at hclaims
      cases hclaims
    | ok claims =>
      rw [hdecode] at hclaims
      exact congrArg Except.ok (Except.ok.inj hclaims)
  · obtain ⟨r, hr, hkey, hvalue, -, hlt⟩ := hjust.recent
    by_contra hlate
    rw [not_lt] at hlate
    have hafter : withdrawn ≤ r.time := (lt_of_add_lt_add_right (hlate.trans_lt hlt)).le
    exact hgone r hr hafter hkey (hvalue ▸ hjust.selected)

/-- **Single sign-on is a login of the identity store**: the tables of every run are those of a run there,
whose logins by address have an address that an accepted token names. -/
theorem identity_of_run (h : Machine.run (SsoServer.step settings same _pwd access_token_ttl_minutes)
    { identity, now } es = some s) : ∃ ies,
      Machine.run (IdentityStore.step _pwd access_token_ttl_minutes) identity ies = some s.identity ∧
      ∀ email token, .login_with_id_token email token ∈ ies →
        ∃ a ∈ s.accepted, emailOf settings a.claims = .ok email := by
  have hI := fun {es s} ↦ @Inv.of_run settings same u jose s _pwd access_token_ttl_minutes identity now es
  induction es using List.reverseRecOn generalizing s with
  | nil =>
    obtain rfl := Option.some.inj h
    exact ⟨[], rfl, fun _ _ hmem ↦ absurd hmem List.not_mem_nil⟩
  | append_singleton es e ih =>
    obtain ⟨s₁, h₁, hs⟩ := Machine.run_snoc_eq_some _ h
    obtain ⟨ies, hies, hlogins⟩ := ih h₁
    have hkept : ∀ email token, .login_with_id_token email token ∈ ies →
        ∃ a ∈ s.accepted, emailOf settings a.claims = .ok email := by
      intro email token hmem
      obtain ⟨a, ha, hemail⟩ := hlogins email token hmem
      exact ⟨a, accepted_subset hs ha, hemail⟩
    rcases identity_of_step hs with hsame | ⟨ie, hie, hnamed⟩
    · exact ⟨ies, hsame ▸ hies, hkept⟩
    · refine ⟨ies ++ [ie], ?_, fun email token hmem ↦ ?_⟩
      · rw [Machine.run_append, hies]
        show (IdentityStore.step _pwd access_token_ttl_minutes s₁.identity ie).bind _ = _
        rw [hie]
        rfl
      rcases List.mem_append.1 hmem with hmem | hmem
      · exact hkept email token hmem
      · obtain ⟨l, hl, hphase⟩ := hnamed email token (List.mem_singleton.1 hmem).symm
        obtain ⟨a, ha, hemail⟩ := (hI h₁).named l hl email hphase
        exact ⟨a, accepted_subset hs ha, hemail⟩

end

end SsoServer

/-! ### A run -/

section

attribute [local instance] asciiTables

/-- A library that knows one token, signed with the key `k1`. -/
@[reducible] def oneToken : JoseLibrary where
  get_unverified_header _ := .ok (Dict.recipe [("alg", Json.text "RS256"), ("kid", Json.text "k1")])
  decode _ key _ _ _ _ :=
    match key with
    | .obj fields =>
      if (Dict.get fields "kid").is "k1".toList then
        .ok (Dict.recipe [("email", Json.text "Ann@App.example")])
      else .error (.jwt "Signature verification failed.")
    | _ => .error (.raised .TypeError)

attribute [local instance] oneToken

def sampleOidc : OidcSettings where
  oidc_enabled := true
  oidc_issuer := "https://id.example".toList
  oidc_audience := "sentrik".toList

/-- Values are compared as texts. -/
def sameKid (a b : Json) : Bool :=
  match a with
  | .str t => b.is t
  | _ => false

/-- One user. -/
def oneUser : IdentityStore where
  users := [{ id := 1, org_id := 0, email := "ann@app.example".toList, password_hash := [] }]
  nextId := 2

/-- Two logins, of which the second finds the key set in the cache. -/
def signOnTwice : List SsoEvent := [
  .begin "t".toList,
  .reply 0 (.ok (.obj (Dict.recipe [("jwks_uri", Json.text "https://id.example/keys")]))),
  .reply 0 (.ok (.obj (Dict.recipe [("keys", .arr [.obj (Dict.recipe [("kid", Json.text "k1")])])]))),
  .query 0 "a".toList, .wait 60, .begin "t".toList, .query 1 "b".toList]

theorem accepted_of_run_twice : ∃ s, Machine.run (SsoServer.step sampleOidc sameKid plainContext 60)
      { identity := oneUser } signOnTwice = some s ∧ s.accepted.length = 2 ∧
    ∀ a ∈ s.accepted, ∃ alg ∈ _ALLOWED_ALGS, a.header.get "alg" = .str alg := by
  obtain ⟨s, h, hlength⟩ : ∃ s, Machine.run (SsoServer.step sampleOidc sameKid plainContext 60)
      { identity := oneUser } signOnTwice = some s ∧ s.accepted.length = 2 := by
    decide +kernel
  exact ⟨s, h, hlength, fun a ha ↦ (SsoServer.accepted_of_run h ha).1⟩

theorem identity_of_run_twice : ∃ s, Machine.run (SsoServer.step sampleOidc sameKid plainContext 60)
      { identity := oneUser } signOnTwice = some s ∧ s.identity.tokens.length = 2 ∧ ∃ ies,
    Machine.run (IdentityStore.step plainContext 60) oneUser ies = some s.identity ∧
      ∀ email token, .login_with_id_token email token ∈ ies →
        ∃ a ∈ s.accepted, emailOf sampleOidc a.claims = .ok email := by
  obtain ⟨s, h, hlength⟩ : ∃ s, Machine.run (SsoServer.step sampleOidc sameKid plainContext 60)
      { identity := oneUser } signOnTwice = some s ∧ s.identity.tokens.length = 2 := by
    decide +kernel
  exact ⟨s, h, hlength, SsoServer.identity_of_run h⟩

end

end Sentrik
