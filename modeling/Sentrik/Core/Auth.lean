import Sentrik.Core.Basic

/-!
# Principals and roles

Who is calling and what platform role they hold. Authorization of assessments against targets is a
separate concept, and is the scope guard's.
-/

namespace Sentrik

inductive Role
  | OWNER
  | ADMIN
  /-- May run assessments. -/
  | OPERATOR
  /-- Read-only. -/
  | VIEWER
  deriving DecidableEq, Repr

def Role.value : Role → String
  | OWNER => "owner"
  | ADMIN => "admin"
  | OPERATOR => "operator"
  | VIEWER => "viewer"

/-- The member with the given value. -/
def Role.ofValue (s : String) : Option Role := [OWNER, ADMIN, OPERATOR, VIEWER].find? (·.value == s)

def ROLE_RANK : Role → ℕ
  | .VIEWER => 0
  | .OPERATOR => 1
  | .ADMIN => 2
  | .OWNER => 3

/-- The error an HTTP handler answers with. -/
structure HTTPException where
  status_code : ℕ
  detail : String
  deriving DecidableEq, Repr

/-- How the caller was authenticated. -/
inductive AuthMethod
  | jwt
  | api_key
  deriving DecidableEq, Repr

structure Principal where
  org_id : ℕ
  user_id : ℕ
  role : Role
  auth_method : AuthMethod := .api_key
  deriving DecidableEq, Repr

def Principal.require_role (p : Principal) (minimum : Role) : Except HTTPException Unit :=
  if ROLE_RANK p.role < ROLE_RANK minimum then
    let detail := s!"requires role >= {minimum.value}, principal has {p.role.value}"
    .error { status_code := 403, detail }
  else .ok ()

theorem Principal.require_role_ok {p : Principal} {minimum : Role} {x : Unit} :
    p.require_role minimum = .ok x ↔ ROLE_RANK minimum ≤ ROLE_RANK p.role := by
  rw [require_role]
  split
  next h => exact iff_of_false (by simp) (not_le.2 h)
  next h => exact iff_of_true rfl (not_lt.1 h)

end Sentrik
