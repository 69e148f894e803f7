import Sentrik.Core.Auth
import Sentrik.Library.Machine

/-!
# Credentials

Signup, logins and API keys, and how a request is resolved to a principal.

A role is copied when a credential is issued: a token carries the role its user had at login, a key the
role it was asked for. A token is resolved against the row of its user, of which only the activity is
read; a key is resolved against its own row alone. So a credential keeps its role, and a key its life,
through any change of the user.

`Covered` is the invariant that the outstanding credentials of a user are covered by the row of the user,
and `Covers` what a change of a row, or the request for a new key, must meet to keep it.

Signing is taken to be sound: a text decodes to the claims it was issued with, and to nothing when it was
not issued.
-/

namespace Sentrik

/-- A stored role; a value that is none reads as viewer. -/
def Role.stored (s : String) : Role := (Role.ofValue s).getD .VIEWER

theorem Role.ofValue_eq_some {value : String} {role : Role} (h : Role.ofValue value = some role) :
    value = role.value := by
  have hvalue := List.find?_some h
  exact (eq_of_beq hvalue).symm

theorem Role.stored_value (role : Role) : Role.stored role.value = role := by
  cases role <;> rfl

/-! ### Rows -/

structure Organization where
  id : ℕ
  slug : String
  deriving DecidableEq, Repr

structure User where
  id : ℕ
  org_id : ℕ
  email : Text
  password_hash : Text
  role : String := "operator"
  is_active : Bool := true
  deriving DecidableEq, Repr

structure ApiKey where
  id : ℕ
  org_id : ℕ
  user_id : ℕ
  name : String := "default"
  /-- The column `prefix`. -/
  lookup_key : Text
  secret_hash : Text
  role : String := "operator"
  revoked : Bool := false
  deriving DecidableEq, Repr

/-- The claims of an access token. -/
structure TokenClaims where
  sub : ℕ
  org : ℕ
  role : String
  exp : ℤ
  deriving DecidableEq, Repr

/-- The password hashing library. -/
structure CryptContext where
  hash : Text → Text
  verify : Text → Text → Bool

/-- The tables of this part, the tokens that were issued, and the clock in seconds. -/
structure IdentityStore where
  organizations : List Organization := []
  users : List User := []
  api_keys : List ApiKey := []
  tokens : List (Text × TokenClaims) := []
  nextId : ℕ := 0
  clock : ℤ := 0
  deriving DecidableEq, Repr

structure OrgSignup where
  org_slug : String
  admin_email : Text
  admin_password : Text

structure LoginRequest where
  org_slug : String
  email : Text
  password : Text

structure ApiKeyCreate where
  name : String := "default"
  role : String := "operator"

/-- What `generate_api_key` draws. -/
structure KeyMaterial where
  lookup_key : Text
  secret : Text

/-- The headers a caller is resolved from. -/
structure Credentials where
  authorization : Option Text := none
  x_api_key : Option Text := none

/-- The only row of a result, if there is one. With several rows the ORM raises, and the server answers
500. -/
def scalar_one_or_none {α : Type} : List α → Except HTTPException (Option α)
  | [] => .ok none
  | [a] => .ok (some a)
  | _ => .error { status_code := 500, detail := "Internal Server Error" }

def parse_api_key (raw : Text) : Option (Text × Text) :=
  match Text.partition '_' raw with
  | (head, some rest) =>
    match Text.partition '_' rest with
    | (lookup_key, some secret) =>
      if head = "sk".toList ∧ lookup_key ≠ [] ∧ secret ≠ [] then some (lookup_key, secret) else none
    | _ => none
  | _ => none

/-- The role of the row of a user. -/
def User.current_role (v : User) : Role := Role.stored v.role

namespace IdentityStore

section

variable (_pwd : CryptContext) (access_token_ttl_minutes : ℕ)

/-! ### Resolving a caller -/

def invalid : HTTPException := { status_code := 401, detail := "invalid API key" }

def _principal_from_api_key (s : IdentityStore) (raw : Text) : Except HTTPException Principal :=
  match parse_api_key raw with
  | none => .error { status_code := 401, detail := "malformed API key" }
  | some (lookup_key, secret) =>
    match scalar_one_or_none
      (s.api_keys.filter fun k ↦ k.lookup_key == lookup_key && k.revoked == false) with
    | .error e => .error e
    | .ok none => .error invalid
    | .ok (some row) =>
      if _pwd.verify secret row.secret_hash then
        .ok {
          org_id := row.org_id
          user_id := row.user_id
          role := Role.stored row.role
          auth_method := .api_key }
      else .error invalid

/-- The claims of a token that has not expired. The library's reason is left out of the detail. -/
def decode_access_token (s : IdentityStore) (token : Text) : Except HTTPException TokenClaims :=
  match s.tokens.find? fun t ↦ t.1 == token && s.clock ≤ t.2.exp with
  | some t => .ok t.2
  | none => .error { status_code := 401, detail := "invalid token" }

def _principal_from_jwt (s : IdentityStore) (token : Text) : Except HTTPException Principal :=
  match s.decode_access_token token with
  | .error e => .error e
  | .ok claims =>
    match scalar_one_or_none
      (s.users.filter fun v ↦ v.id == claims.sub && v.org_id == claims.org) with
    | .error e => .error e
    | .ok none => .error { status_code := 401, detail := "user not found or inactive" }
    | .ok (some v) =>
      if v.is_active then
        .ok {
          org_id := claims.org
          user_id := claims.sub
          role := Role.stored claims.role
          auth_method := .jwt }
      else .error { status_code := 401, detail := "user not found or inactive" }

/-- Resolve a caller from its headers; an empty header counts as none. -/
def get_principal [u : UnicodeTables] (s : IdentityStore) (c : Credentials) :
    Except HTTPException Principal :=
  match c.x_api_key.filter (· ≠ []), c.authorization.filter (· ≠ []) with
  | some key, _ => _principal_from_api_key _pwd s (Text.strip key)
  | none, some authorization =>
    match Text.partition ' ' authorization with
    | (scheme, some token) =>
      if u.lower scheme = "bearer".toList ∧ token ≠ [] then s._principal_from_jwt (Text.strip token)
      else .error { status_code := 401, detail := "expected 'Bearer <token>'" }
    | _ => .error { status_code := 401, detail := "expected 'Bearer <token>'" }
  | none, none =>
    .error { status_code := 401, detail := "authentication required (Bearer token or X-API-Key)" }

/-! ### Handlers -/

/-- Issue a token for a user; `token` is the text it is signed to. -/
def create_access_token (s : IdentityStore) (org_id user_id : ℕ) (role : String) (token : Text) :
    IdentityStore :=
  let exp := s.clock + access_token_ttl_minutes * 60
  { s with tokens := s.tokens ++ [(token, { sub := user_id, org := org_id, role, exp })] }

def signup [u : UnicodeTables] (s : IdentityStore) (body : OrgSignup) (key : KeyMaterial)
    (token : Text) : Except HTTPException IdentityStore :=
  match scalar_one_or_none (s.organizations.filter (·.slug == body.org_slug)) with
  | .error e => .error e
  | .ok (some _) => .error { status_code := 409, detail := "org slug already taken" }
  | .ok none =>
    if body.admin_password.length < 8 then
      .error { status_code := 422, detail := "password must be at least 8 characters" }
    else
      let org : Organization := { id := s.nextId, slug := body.org_slug }
      let v : User := {
        id := s.nextId + 1
        org_id := org.id
        email := u.lower body.admin_email
        password_hash := _pwd.hash body.admin_password
        role := Role.OWNER.value }
      let row : ApiKey := {
        id := s.nextId + 2
        org_id := org.id
        user_id := v.id
        name := "bootstrap"
        lookup_key := key.lookup_key
        secret_hash := _pwd.hash key.secret
        role := Role.OWNER.value }
      let s := { s with
        organizations := s.organizations ++ [org]
        users := s.users ++ [v]
        api_keys := s.api_keys ++ [row]
        nextId := s.nextId + 3 }
      .ok (s.create_access_token access_token_ttl_minutes org.id v.id Role.OWNER.value token)

def login [u : UnicodeTables] (s : IdentityStore) (body : LoginRequest) (token : Text) :
    Except HTTPException IdentityStore :=
  let refused : HTTPException := { status_code := 401, detail := "invalid credentials" }
  match scalar_one_or_none (s.organizations.filter (·.slug == body.org_slug)) with
  | .error e => .error e
  | .ok none => .error refused
  | .ok (some org) =>
    match scalar_one_or_none
      (s.users.filter fun v ↦ v.org_id == org.id && v.email == u.lower body.email) with
    | .error e => .error e
    | .ok none => .error refused
    | .ok (some v) =>
      if v.is_active ∧ _pwd.verify body.password v.password_hash then
        .ok (s.create_access_token access_token_ttl_minutes org.id v.id v.role token)
      else .error refused

/-- The login with an identity token of a provider, whose claims have been verified to name `email`. -/
def login_with_id_token [u : UnicodeTables] (s : IdentityStore) (email token : Text) :
    Except HTTPException IdentityStore :=
  match s.users.find? fun v ↦ u.lower v.email == u.lower (Text.strip email) && v.is_active with
  | none => .error { status_code := 401, detail := "no provisioned user for this identity" }
  | some v => .ok (s.create_access_token access_token_ttl_minutes v.org_id v.id v.role token)

/-- The new row, and the store with it. -/
def create_api_key [UnicodeTables] (s : IdentityStore) (principal : Principal) (body : ApiKeyCreate)
    (key : KeyMaterial) : Except HTTPException (IdentityStore × ApiKey) :=
  match principal.require_role .ADMIN with
  | .error e => .error e
  | .ok () =>
    match Role.ofValue body.role with
    | none =>
      .error { status_code := 422, detail := "invalid role " ++ Text.repr body.role.toList }
    | some role =>
      let row : ApiKey := {
        id := s.nextId
        org_id := principal.org_id
        user_id := principal.user_id
        name := body.name
        lookup_key := key.lookup_key
        secret_hash := _pwd.hash key.secret
        role := role.value }
      .ok ({ s with api_keys := s.api_keys ++ [row], nextId := s.nextId + 1 }, row)

def revoke_api_key (s : IdentityStore) (principal : Principal) (key_id : ℕ) :
    Except HTTPException IdentityStore :=
  match principal.require_role .ADMIN with
  | .error e => .error e
  | .ok () =>
    match s.api_keys.find? (·.id == key_id) with
    | none => .error { status_code := 404, detail := "not found" }
    | some row =>
      if row.org_id ≠ principal.org_id then .error { status_code := 404, detail := "not found" }
      else
        .ok { s with api_keys := s.api_keys.map fun k ↦
          if k.id = key_id then { k with revoked := true } else k }

end

end IdentityStore

/-! ### The machine -/

inductive IdentityEvent
  | signup (body : OrgSignup) (key : KeyMaterial) (token : Text)
  | login (body : LoginRequest) (token : Text)
  | login_with_id_token (email token : Text)
  | create_api_key (c : Credentials) (body : ApiKeyCreate) (key : KeyMaterial)
  | revoke_api_key (c : Credentials) (key_id : ℕ)
  /-- An administrator of the database changes a user. -/
  | set_role (user_id : ℕ) (role : String)
  | set_active (user_id : ℕ) (is_active : Bool)
  | tick (seconds : ℕ)

namespace IdentityStore

section

variable (_pwd : CryptContext) (access_token_ttl_minutes : ℕ) [u : UnicodeTables]

/-- A request that fails leaves the store as it is. -/
def commit (s : IdentityStore) : Except HTTPException IdentityStore → IdentityStore
  | .ok s' => s'
  | .error _ => s

def setUser (s : IdentityStore) (user_id : ℕ) (f : User → User) : IdentityStore :=
  { s with users := s.users.map fun v ↦ if v.id = user_id then f v else v }

/-- One request, or one change. The text of a new token was not issued before. -/
def step (s : IdentityStore) : IdentityEvent → Option IdentityStore
  | .signup body key token =>
    if token ∈ s.tokens.map (·.1) then none
    else some (s.commit (signup _pwd access_token_ttl_minutes s body key token))
  | .login body token =>
    if token ∈ s.tokens.map (·.1) then none
    else some (s.commit (login _pwd access_token_ttl_minutes s body token))
  | .login_with_id_token email token =>
    if token ∈ s.tokens.map (·.1) then none
    else some (s.commit (login_with_id_token access_token_ttl_minutes s email token))
  | .create_api_key c body key =>
    match get_principal _pwd s c with
    | .ok principal => some (s.commit ((create_api_key _pwd s principal body key).map Prod.fst))
    | .error _ => some s
  | .revoke_api_key c key_id =>
    match get_principal _pwd s c with
    | .ok principal => some (s.commit (s.revoke_api_key principal key_id))
    | .error _ => some s
  | .set_role user_id role => some (s.setUser user_id fun v ↦ { v with role })
  | .set_active user_id is_active => some (s.setUser user_id fun v ↦ { v with is_active })
  | .tick seconds => some { s with clock := s.clock + seconds }

/-! ### What is required -/

/-- **Requests are resolved soundly**: whoever they authenticate as exists, is active, and has at least
the role the principal has. -/
def Authentic (s : IdentityStore) : Prop :=
  ∀ c p, get_principal _pwd s c = .ok p →
    ∃ v ∈ s.users, v.id = p.user_id ∧ v.org_id = p.org_id ∧ v.is_active = true ∧
      ROLE_RANK p.role ≤ ROLE_RANK v.current_role

/-- **No principal obtains a key above its own role.** -/
def NoEscalation (s : IdentityStore) : IdentityEvent → Prop
  | .create_api_key c body key =>
    ∀ p s' row, get_principal _pwd s c = .ok p → create_api_key _pwd s p body key = .ok (s', row) →
      ROLE_RANK (Role.stored row.role) ≤ ROLE_RANK p.role
  | _ => True

omit u in
/-- A token that has not expired. -/
def live (s : IdentityStore) (t : Text × TokenClaims) : Prop := s.clock ≤ t.2.exp

/-- **The condition on a step**: a user is deactivated only without an unrevoked key, a role is changed,
or an inactive user activated again, only when no unrevoked key and no live token carries more, and an
admin does not ask for the key of an owner. -/
def Covers (s : IdentityStore) : IdentityEvent → Prop
  | .set_role user_id role =>
    (∀ k ∈ s.api_keys, k.user_id = user_id → k.revoked = false →
      ROLE_RANK (Role.stored k.role) ≤ ROLE_RANK (Role.stored role)) ∧
    ∀ t ∈ s.tokens, t.2.sub = user_id → s.live t →
      (∃ v ∈ s.users, v.id = user_id ∧ v.is_active = true) →
        ROLE_RANK (Role.stored t.2.role) ≤ ROLE_RANK (Role.stored role)
  | .set_active user_id false => ∀ k ∈ s.api_keys, k.user_id = user_id → k.revoked = true
  | .set_active user_id true =>
    ∀ t ∈ s.tokens, t.2.sub = user_id → s.live t → ∀ v ∈ s.users, v.id = user_id →
      ROLE_RANK (Role.stored t.2.role) ≤ ROLE_RANK v.current_role
  | .create_api_key c body _ =>
    ∀ p ∈ (get_principal _pwd s c).toOption, p.role = .ADMIN → body.role ≠ Role.OWNER.value
  | _ => True

instance (s : IdentityStore) (e : IdentityEvent) : Decidable (Covers _pwd s e) := by
  unfold Covers live
  split <;> infer_instance

end

variable {_pwd : CryptContext} {access_token_ttl_minutes : ℕ}
variable {s s' : IdentityStore}

/-- **The invariant**: users cover their outstanding credentials. -/
structure Covered (s : IdentityStore) : Prop where
  keys : ∀ k ∈ s.api_keys, k.revoked = false → ∃ v ∈ s.users, v.id = k.user_id ∧
    v.org_id = k.org_id ∧ v.is_active = true ∧ ROLE_RANK (Role.stored k.role) ≤ ROLE_RANK v.current_role
  tokens : ∀ t ∈ s.tokens, s.live t → ∀ v ∈ s.users, v.id = t.2.sub → v.is_active = true →
    ROLE_RANK (Role.stored t.2.role) ≤ ROLE_RANK v.current_role
  issued : ∀ t ∈ s.tokens, t.2.sub < s.nextId
  below : ∀ v ∈ s.users, v.id < s.nextId
  unique : ∀ v ∈ s.users, ∀ w ∈ s.users, v.id = w.id → v = w

/-! ### Resolving a caller -/

theorem mem_of_scalar {α : Type} {l : List α} {a : α} (h : scalar_one_or_none l = .ok (some a)) :
    a ∈ l := by
  match l, h with
  | [b], h =>
    rw [scalar_one_or_none] at h
    cases h
    exact List.mem_singleton_self _

/-- A key is resolved to what its row says. -/
theorem principal_from_api_key_spec {raw : Text} {p : Principal}
    (h : _principal_from_api_key _pwd s raw = .ok p) :
    ∃ k ∈ s.api_keys, k.revoked = false ∧ k.user_id = p.user_id ∧ k.org_id = p.org_id ∧
      p.role = Role.stored k.role := by
  rw [_principal_from_api_key] at h
  split at h
  · cases h
  next lookup_key secret _ =>
    split at h
    · cases h
    · cases h
    next row hrow =>
      split at h
      · cases h
        obtain ⟨hmem, hkey⟩ := List.mem_filter.1 (mem_of_scalar hrow)
        have hrevoked : row.revoked = false := eq_of_beq (Bool.and_eq_true_iff.1 hkey).2
        exact ⟨row, hmem, hrevoked, rfl, rfl, rfl⟩
      · cases h

/-- A token is resolved to an active user and the role the token carries. -/
theorem principal_from_jwt_spec {token : Text} {p : Principal}
    (h : s._principal_from_jwt token = .ok p) :
    ∃ t ∈ s.tokens, s.live t ∧ p.role = Role.stored t.2.role ∧ ∃ v ∈ s.users, v.id = t.2.sub ∧
      v.id = p.user_id ∧ v.org_id = p.org_id ∧ v.is_active = true := by
  rw [_principal_from_jwt, decode_access_token] at h
  split at h
  · cases h
  next claims hclaims =>
    split at hclaims
    next t ht =>
      cases hclaims
      have hfound : (t.1 == token && decide (s.clock ≤ t.2.exp)) = true :=
        List.find?_some (p := fun t : Text × TokenClaims ↦ t.1 == token && decide (s.clock ≤ t.2.exp)) ht
      have hunexpired : s.clock ≤ t.2.exp := of_decide_eq_true (Bool.and_eq_true_iff.1 hfound).2
      have hlive : s.live t := hunexpired
      split at h
      · cases h
      · cases h
      next v hv =>
        split at h
        next hactive =>
          cases h
          obtain ⟨hmem, hkey⟩ := List.mem_filter.1 (mem_of_scalar hv)
          have hid : v.id = t.2.sub := eq_of_beq (Bool.and_eq_true_iff.1 hkey).1
          have horg : v.org_id = t.2.org := eq_of_beq (Bool.and_eq_true_iff.1 hkey).2
          exact ⟨t, List.mem_of_find?_eq_some ht, hlive, rfl, v, hmem, hid, hid, horg, hactive⟩
        · cases h
    · cases hclaims

variable [u : UnicodeTables]

/-- What a request is resolved from. -/
theorem get_principal_spec {c : Credentials} {p : Principal} (h : get_principal _pwd s c = .ok p) :
    (∃ raw, _principal_from_api_key _pwd s raw = .ok p) ∨ ∃ token, s._principal_from_jwt token = .ok p := by
  rw [get_principal] at h
  split at h
  next key _ _ => exact Or.inl ⟨_, h⟩
  next authorization _ _ =>
    split at h
    · split at h
      · exact Or.inr ⟨_, h⟩
      · cases h
    · cases h
  next => cases h

/-- **Covered credentials are resolved soundly.** -/
theorem Covered.authentic (hC : s.Covered) : Authentic _pwd s := by
  intro c p h
  rcases get_principal_spec h with ⟨raw, h⟩ | ⟨token, h⟩
  · obtain ⟨k, hk, hrevoked, huser, horg, hrole⟩ := principal_from_api_key_spec h
    obtain ⟨v, hv, hid, hvorg, hactive, hrank⟩ := hC.keys k hk hrevoked
    exact ⟨v, hv, hid.trans huser, hvorg.trans horg, hactive, hrole ▸ hrank⟩
  · obtain ⟨t, ht, hlive, hrole, v, hv, hsub, hid, horg, hactive⟩ := principal_from_jwt_spec h
    exact ⟨v, hv, hid, horg, hactive, hrole ▸ hC.tokens t ht hlive v hv hsub hactive⟩

/-! ### The handlers -/

omit u in
/-- A token for a user with its current role is covered. -/
theorem Covered.create_access_token (hC : s.Covered) {v : User} (hv : v ∈ s.users) (token : Text) :
    (s.create_access_token access_token_ttl_minutes v.org_id v.id v.role token).Covered where
  keys := hC.keys
  tokens t ht hlive w hw hid hactive := by
    rcases List.mem_append.1 ht with ht | ht
    · exact hC.tokens t ht hlive w hw hid hactive
    · obtain rfl := List.mem_singleton.1 ht
      rw [hC.unique w hw v hv hid]
      exact Nat.le_refl _
  issued t ht := by
    rcases List.mem_append.1 ht with ht | ht
    · exact hC.issued t ht
    · obtain rfl := List.mem_singleton.1 ht
      exact hC.below v hv
  below := hC.below
  unique := hC.unique

/-- A new organization has its owner, with a key. -/
theorem Covered.signup {body : OrgSignup} {key : KeyMaterial} {token : Text} (hC : s.Covered)
    (h : signup _pwd access_token_ttl_minutes s body key token = .ok s') : s'.Covered := by
  rw [IdentityStore.signup] at h
  split at h
  · cases h
  · cases h
  · split at h
    · cases h
    · obtain rfl := Except.ok.inj h
      clear h
      set v : User := {
        id := s.nextId + 1
        org_id := s.nextId
        email := u.lower body.admin_email
        password_hash := _pwd.hash body.admin_password
        role := Role.OWNER.value } with hv
      have hfresh : ∀ w ∈ s.users, w.id ≠ s.nextId + 1 := fun w hw ↦
        ((hC.below w hw).trans (Nat.lt_succ_self _)).ne
      refine Covered.create_access_token (v := v) ?_ ?_ token
      · refine ⟨fun k hk hrevoked ↦ ?_, fun t ht hlive w hw hid hactive ↦ ?_, fun t ht ↦ ?_,
          fun w hw ↦ ?_, fun w hw w' hw' hid ↦ ?_⟩
        · rcases List.mem_append.1 hk with hk | hk
          · obtain ⟨w, hw, hw'⟩ := hC.keys k hk hrevoked
            exact ⟨w, List.mem_append_left _ hw, hw'⟩
          · obtain rfl := List.mem_singleton.1 hk
            exact ⟨v, List.mem_append_right _ (List.mem_singleton_self v), rfl, rfl, rfl, Nat.le_refl _⟩
        · rcases List.mem_append.1 hw with hw | hw
          · exact hC.tokens t ht hlive w hw hid hactive
          · -- no token was issued for the new user
            rw [List.mem_singleton.1 hw] at hid
            have hissued := hC.issued t ht
            rw [← hid] at hissued
            exact absurd (Nat.lt_succ_self s.nextId) hissued.asymm
        · exact (hC.issued t ht).trans (Nat.lt_add_of_pos_right (by decide))
        · rcases List.mem_append.1 hw with hw | hw
          · exact (hC.below w hw).trans (Nat.lt_add_of_pos_right (by decide))
          · rw [List.mem_singleton.1 hw]
            exact show s.nextId + 1 < s.nextId + 3 by omega
        · rcases List.mem_append.1 hw with hw | hw <;> rcases List.mem_append.1 hw' with hw' | hw'
          · exact hC.unique w hw w' hw' hid
          · rw [List.mem_singleton.1 hw'] at hid
            exact absurd hid (hfresh w hw)
          · rw [List.mem_singleton.1 hw] at hid
            exact absurd hid.symm (hfresh w' hw')
          · rw [List.mem_singleton.1 hw, List.mem_singleton.1 hw']
      · exact List.mem_append_right _ (List.mem_singleton_self v)

theorem Covered.login {body : LoginRequest} {token : Text} (hC : s.Covered)
    (h : login _pwd access_token_ttl_minutes s body token = .ok s') : s'.Covered := by
  rw [IdentityStore.login] at h
  split at h
  · cases h
  · cases h
  next org _ =>
    split at h
    · cases h
    · cases h
    next v hv =>
      split at h
      · obtain ⟨hmem, hkey⟩ := List.mem_filter.1 (mem_of_scalar hv)
        have horg : v.org_id = org.id := eq_of_beq (Bool.and_eq_true_iff.1 hkey).1
        rw [← Except.ok.inj h, ← horg]
        exact hC.create_access_token hmem token
      · cases h

theorem Covered.login_with_id_token {email token : Text} (hC : s.Covered)
    (h : login_with_id_token access_token_ttl_minutes s email token = .ok s') : s'.Covered := by
  rw [IdentityStore.login_with_id_token] at h
  split at h
  · cases h
  next v hv =>
    rw [← Except.ok.inj h]
    exact hC.create_access_token (List.mem_of_find?_eq_some hv) token

/-- What creating a key does. -/
theorem create_api_key_spec {p : Principal} {body : ApiKeyCreate} {key : KeyMaterial} {row : ApiKey}
    (h : create_api_key _pwd s p body key = .ok (s', row)) :
    ROLE_RANK .ADMIN ≤ ROLE_RANK p.role ∧ (∃ role, Role.ofValue body.role = some role ∧
      row.role = role.value) ∧ row.user_id = p.user_id ∧ row.org_id = p.org_id ∧
      s' = { s with api_keys := s.api_keys ++ [row], nextId := s.nextId + 1 } := by
  rw [create_api_key] at h
  split at h
  · cases h
  next hrequired =>
    split at h
    · cases h
    next role hrole =>
      cases h
      exact ⟨Principal.require_role_ok.1 hrequired, ⟨role, hrole, rfl⟩, rfl, rfl, rfl⟩

/-- **When a key does not outrank who asked for it.** -/
theorem noEscalation_of_covers {e : IdentityEvent} (h : Covers _pwd s e) : NoEscalation _pwd s e := by
  cases e with
  | create_api_key c body key =>
    intro p s' row hp hcreate
    obtain ⟨hadmin, ⟨role, hrole, hrow⟩, -⟩ := create_api_key_spec hcreate
    rw [hrow, Role.stored_value]
    cases hprole : p.role with
    | OWNER => cases role <;> decide
    | ADMIN =>
      have hmem : p ∈ (get_principal _pwd s c).toOption := by
        rw [hp]
        rfl
      have hne : role.value ≠ Role.OWNER.value := Role.ofValue_eq_some hrole ▸ h p hmem hprole
      cases role with
      | OWNER => exact absurd rfl hne
      | ADMIN | OPERATOR | VIEWER => decide
    | OPERATOR | VIEWER =>
      rw [hprole] at hadmin
      exact absurd hadmin (by decide)
  | signup | login | login_with_id_token | revoke_api_key | set_role | set_active | tick => trivial

/-- A key that does not outrank the principal is covered by the user behind it. -/
theorem Covered.create_api_key {c : Credentials} {p : Principal} {body : ApiKeyCreate}
    {key : KeyMaterial} {row : ApiKey} (hC : s.Covered) (hcovers : Covers _pwd s (.create_api_key c body key))
    (hp : get_principal _pwd s c = .ok p) (h : create_api_key _pwd s p body key = .ok (s', row)) :
    s'.Covered := by
  have hrank := noEscalation_of_covers hcovers p s' row hp h
  obtain ⟨-, -, huser, horg, rfl⟩ := create_api_key_spec h
  refine ⟨fun k hk hrevoked ↦ ?_, hC.tokens, fun t ht ↦ (hC.issued t ht).trans (Nat.lt_succ_self _),
    fun v hv ↦ (hC.below v hv).trans (Nat.lt_succ_self _), hC.unique⟩
  rcases List.mem_append.1 hk with hk | hk
  · exact hC.keys k hk hrevoked
  · obtain rfl := List.mem_singleton.1 hk
    obtain ⟨v, hv, hid, hvorg, hactive, hprank⟩ := hC.authentic c p hp
    exact ⟨v, hv, hid.trans huser.symm, hvorg.trans horg.symm, hactive, hrank.trans hprank⟩

omit u in
theorem Covered.revoke_api_key {p : Principal} {key_id : ℕ} (hC : s.Covered)
    (h : s.revoke_api_key p key_id = .ok s') : s'.Covered := by
  rw [IdentityStore.revoke_api_key] at h
  split at h
  · cases h
  · split at h
    · cases h
    · split at h
      · cases h
      · rw [← Except.ok.inj h]
        refine ⟨fun k hk hrevoked ↦ ?_, hC.tokens, hC.issued, hC.below, hC.unique⟩
        obtain ⟨k₀, hk₀, rfl⟩ := List.mem_map.1 hk
        split at hrevoked
        · cases hrevoked
        next hne =>
          rw [if_neg hne]
          exact hC.keys k₀ hk₀ hrevoked

omit u in
/-- Changing a user keeps the invariant when the new row covers its credentials. -/
theorem Covered.setUser {user_id : ℕ} {f : User → User} (hC : s.Covered)
    (hid : ∀ v, (f v).id = v.id) (horg : ∀ v, (f v).org_id = v.org_id)
    (hkeys : ∀ k ∈ s.api_keys, k.user_id = user_id → k.revoked = false → ∀ v ∈ s.users, v.id = user_id →
      v.is_active = true → ROLE_RANK (Role.stored k.role) ≤ ROLE_RANK v.current_role →
        (f v).is_active = true ∧ ROLE_RANK (Role.stored k.role) ≤ ROLE_RANK (f v).current_role)
    (htokens : ∀ t ∈ s.tokens, t.2.sub = user_id → s.live t → ∀ v ∈ s.users, v.id = user_id →
      (f v).is_active = true → ROLE_RANK (Role.stored t.2.role) ≤ ROLE_RANK (f v).current_role) :
    (s.setUser user_id f).Covered := by
  have hsame : ∀ v : User, (if v.id = user_id then f v else v).id = v.id := by
    intro v
    split
    · exact hid v
    · rfl
  refine ⟨fun k hk hrevoked ↦ ?_, fun t ht hlive w hw hsub hactive ↦ ?_, hC.issued, fun w hw ↦ ?_,
    fun w hw w' hw' heq ↦ ?_⟩
  · obtain ⟨v, hv, hvid, hvorg, hactive, hrank⟩ := hC.keys k hk hrevoked
    refine ⟨_, List.mem_map.2 ⟨v, hv, rfl⟩, (hsame v).trans hvid, ?_⟩
    split
    next hthis =>
      obtain ⟨hactive', hrank'⟩ := hkeys k hk (hvid.symm.trans hthis) hrevoked v hv hthis hactive hrank
      exact ⟨(horg v).trans hvorg, hactive', hrank'⟩
    next => exact ⟨hvorg, hactive, hrank⟩
  · obtain ⟨v, hv, rfl⟩ := List.mem_map.1 hw
    rw [hsame v] at hsub
    split at hactive
    next hthis =>
      rw [if_pos hthis]
      exact htokens t ht (hsub.symm.trans hthis) hlive v hv hthis hactive
    next hother =>
      rw [if_neg hother]
      exact hC.tokens t ht hlive v hv hsub hactive
  · obtain ⟨v, hv, rfl⟩ := List.mem_map.1 hw
    rw [hsame v]
    exact hC.below v hv
  · obtain ⟨v, hv, rfl⟩ := List.mem_map.1 hw
    obtain ⟨v', hv', rfl⟩ := List.mem_map.1 hw'
    rw [hsame v, hsame v'] at heq
    rw [hC.unique v hv v' hv' heq]

/-! ### Steps and runs -/

omit u in
theorem Covered.commit {r : Except HTTPException IdentityStore} (hC : s.Covered)
    (h : ∀ s', r = .ok s' → s'.Covered) : (s.commit r).Covered := by
  cases hr : r with
  | ok s' => exact h s' hr
  | error e => exact hC

/-- **The step lemma.** -/
theorem Covered.step {e : IdentityEvent} (hC : s.Covered) (hcovers : Covers _pwd s e)
    (h : step _pwd access_token_ttl_minutes s e = some s') : s'.Covered := by
  cases e with
  | signup body key token =>
    rw [IdentityStore.step] at h
    split at h
    · cases h
    · exact Option.some.inj h ▸ hC.commit fun s' hs' ↦ hC.signup hs'
  | login body token =>
    rw [IdentityStore.step] at h
    split at h
    · cases h
    · exact Option.some.inj h ▸ hC.commit fun s' hs' ↦ hC.login hs'
  | login_with_id_token email token =>
    rw [IdentityStore.step] at h
    split at h
    · cases h
    · exact Option.some.inj h ▸ hC.commit fun s' hs' ↦ hC.login_with_id_token hs'
  | create_api_key c body key =>
    rw [IdentityStore.step] at h
    split at h
    next p hp =>
      rw [← Option.some.inj h]
      refine hC.commit fun s' hs' ↦ ?_
      cases hcreate : IdentityStore.create_api_key _pwd s p body key with
      | error e =>
        rw [hcreate] at hs'
        cases hs'
      | ok r =>
        rw [hcreate] at hs'
        obtain rfl := Except.ok.inj hs'
        exact hC.create_api_key hcovers hp hcreate
    · exact Option.some.inj h ▸ hC
  | revoke_api_key c key_id =>
    rw [IdentityStore.step] at h
    split at h
    · exact Option.some.inj h ▸ hC.commit fun s' hs' ↦ hC.revoke_api_key hs'
    · exact Option.some.inj h ▸ hC
  | set_role user_id role =>
    obtain ⟨hkeys, htokens⟩ := hcovers
    rw [← Option.some.inj h]
    refine hC.setUser (fun _ ↦ rfl) (fun _ ↦ rfl) ?_ ?_
    · intro k hk huser hrevoked v hv hvid hactive _
      exact ⟨hactive, hkeys k hk huser hrevoked⟩
    · intro t ht hsub hlive v hv hvid hactive
      exact htokens t ht hsub hlive ⟨v, hv, hvid, hactive⟩
  | set_active user_id is_active =>
    rw [← Option.some.inj h]
    refine hC.setUser (fun _ ↦ rfl) (fun _ ↦ rfl) ?_ ?_
    · intro k hk huser hrevoked v hv hvid hactive hrank
      cases is_active with
      | true => exact ⟨rfl, hrank⟩
      | false => exact absurd (hrevoked.symm.trans (hcovers k hk huser)) (by decide)
    · intro t ht hsub hlive v hv hvid hactive
      cases is_active with
      | true => exact hcovers t ht hsub hlive v hv hvid
      | false => cases hactive
  | tick seconds =>
    rw [← Option.some.inj h]
    refine ⟨hC.keys, fun t ht hlive ↦ hC.tokens t ht ?_, hC.issued, hC.below, hC.unique⟩
    have hlive' : s.clock + seconds ≤ t.2.exp := hlive
    exact show s.clock ≤ t.2.exp by omega

/-- **Credential soundness.** In every run whose steps all meet the condition, every request is resolved
soundly at the end, and at the next step that meets it no principal obtains a key above its own role. -/
theorem authentic_of_covers {es : List IdentityEvent}
    (hes : Machine.Along (IdentityStore.step _pwd access_token_ttl_minutes) (Covers _pwd) {} es)
    (h : Machine.run (IdentityStore.step _pwd access_token_ttl_minutes) {} es = some s) :
    Authentic _pwd s ∧ ∀ e, Covers _pwd s e → NoEscalation _pwd s e := by
  have hC : s.Covered := Machine.inv_of_run_along (fun hC hcov hs ↦ hC.step hcov hs) hes h
    ⟨fun k hk ↦ (by cases hk), fun t ht ↦ (by cases ht), fun t ht ↦ (by cases ht),
      fun v hv ↦ (by cases hv), fun v hv ↦ (by cases hv)⟩
  exact ⟨hC.authentic, fun e he ↦ noEscalation_of_covers he⟩

end IdentityStore

/-! ### Sample runs -/

section

attribute [local instance] asciiTables

/-- Hashing that keeps the text. -/
def plainContext : CryptContext where
  hash := id
  verify secret hashed := secret == hashed

/-- The signup of an organization. -/
def sampleSignup : IdentityEvent :=
  .signup { org_slug := "acme", admin_email := "a@acme.io".toList, admin_password := "password".toList }
    { lookup_key := "0a".toList, secret := "s".toList } "t".toList

/-- A request with a key. -/
def withKey (key : String) : Credentials := { x_api_key := some key.toList }

/-- The owner makes a key for an admin, which asks for a key of an owner. -/
def ownerKeyRequest : IdentityEvent :=
  .create_api_key (withKey "sk_0b_s") { role := "owner" }
    { lookup_key := "0c".toList, secret := "s".toList }

/-- A user that has been deactivated is authenticated by its key, and not by its token; and the key of an
admin obtains a key of an owner. -/
theorem deactivated_authenticated :
    (∃ s, Machine.run (IdentityStore.step plainContext 720) {} [sampleSignup, .set_active 1 false] =
        some s ∧ s.users.map (·.is_active) = [false] ∧
      (s._principal_from_jwt "t".toList).toOption = none ∧ ¬IdentityStore.Authentic plainContext s) ∧
    ∃ s, Machine.run (IdentityStore.step plainContext 720) {}
        [sampleSignup, .create_api_key (withKey "sk_0a_s") { role := "admin" }
          { lookup_key := "0b".toList, secret := "s".toList }] = some s ∧
      ¬IdentityStore.NoEscalation plainContext s ownerKeyRequest := by
  constructor
  · obtain ⟨s, hs, hactive, hjwt, p, hp⟩ : ∃ s, Machine.run (IdentityStore.step plainContext 720) {}
        [sampleSignup, .set_active 1 false] = some s ∧ s.users.map (·.is_active) = [false] ∧
          (s._principal_from_jwt "t".toList).toOption = none ∧
          ∃ p ∈ (IdentityStore.get_principal plainContext s (withKey "sk_0a_s")).toOption, True := by
      decide +kernel
    refine ⟨s, hs, hactive, hjwt, fun h ↦ ?_⟩
    cases hprincipal : IdentityStore.get_principal plainContext s (withKey "sk_0a_s") with
    | error e =>
      rw [hprincipal] at hp
      cases hp.1
    | ok q =>
      obtain ⟨v, hv, -, -, hvactive, -⟩ := h _ q hprincipal
      have hmem : v.is_active ∈ s.users.map (·.is_active) := List.mem_map.2 ⟨v, hv, rfl⟩
      rw [hactive, List.mem_singleton, hvactive] at hmem
      cases hmem
  · obtain ⟨s, hs, p, hp, hrole, r, hr, hrow⟩ : ∃ s, Machine.run (IdentityStore.step plainContext 720) {}
        [sampleSignup, .create_api_key (withKey "sk_0a_s") { role := "admin" }
          { lookup_key := "0b".toList, secret := "s".toList }] = some s ∧
        ∃ p ∈ (IdentityStore.get_principal plainContext s (withKey "sk_0b_s")).toOption, p.role = .ADMIN ∧
          ∃ r ∈ (IdentityStore.create_api_key plainContext s p { role := "owner" }
            { lookup_key := "0c".toList, secret := "s".toList }).toOption, r.2.role = "owner" := by
      decide +kernel
    refine ⟨s, hs, fun h ↦ ?_⟩
    cases hprincipal : IdentityStore.get_principal plainContext s (withKey "sk_0b_s") with
    | error e =>
      rw [hprincipal] at hp
      cases hp
    | ok q =>
      rw [hprincipal] at hp
      obtain rfl := Option.some.inj hp
      cases hcreate : IdentityStore.create_api_key plainContext s q { role := "owner" }
          { lookup_key := "0c".toList, secret := "s".toList } with
      | error e =>
        rw [hcreate] at hr
        cases hr
      | ok r' =>
        rw [hcreate] at hr
        obtain rfl := Option.some.inj hr
        have hrank := h q r'.1 r'.2 hprincipal hcreate
        rw [hrow, hrole] at hrank
        exact absurd hrank (by decide)

/-- A user whose key was revoked before it is deactivated. -/
theorem authentic_of_covers_revoked : ∃ s,
    Machine.run (IdentityStore.step plainContext 720) {}
      [sampleSignup, .revoke_api_key (withKey "sk_0a_s") 2, .set_active 1 false] = some s ∧
    s.api_keys.length = 1 ∧ IdentityStore.Authentic plainContext s := by
  obtain ⟨s, hs, hlength⟩ : ∃ s, Machine.run (IdentityStore.step plainContext 720) {}
      [sampleSignup, .revoke_api_key (withKey "sk_0a_s") 2, .set_active 1 false] = some s ∧
        s.api_keys.length = 1 := by
    decide +kernel
  exact ⟨s, hs, hlength, (IdentityStore.authentic_of_covers (by decide +kernel) hs).1⟩

end

end Sentrik
