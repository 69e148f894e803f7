import Sentrik.Checks.Base

/-!
# The skill registry

The stored rows from which declarative checks are built, and the snapshot of their specs that a run
freezes. A row is executed through its spec alone, so a snapshot of the specs rebuilds the very checks
it was taken from (`checks_from_snapshot_snapshot_specs`).
-/

namespace Sentrik

/-- The stored manifest of a skill, as far as its runnable spec reads it; `state_changing` and
`environments` are the keys of its `policy`, and `digest` is the hash of the whole of it. -/
structure SkillPayload where
  declarative : Bool := true
  intensity : String := "passive"
  detector : Option String := none
  state_changing : Bool := false
  environments : List String := []
  digest : String := ""
  deriving DecidableEq, Repr

/-- Provenance reference recorded on findings: name, version, and the start of the hash. -/
def skill_ref (name version : String) (payload : SkillPayload) : String :=
  name ++ "@" ++ version ++ "#" ++ String.ofList (payload.digest.toList.take 8)

structure AgentSkill where
  org_id : Option ℕ := none
  name : String
  version : String := "1.0.0"
  check_class : String
  manifest : SkillPayload
  enabled : Bool := true
  deriving DecidableEq, Repr

/-- The runnable spec of a stored manifest. -/
def _row_spec (name version check_class : String) (m : SkillPayload) : Manifest where
  name
  version
  check_class
  intensity := m.intensity
  detector := m.detector
  state_changing := m.state_changing
  allowed_environments := m.environments
  skill_ref := skill_ref name version m

/-- Freeze the runnable specs of declarative checks. -/
def snapshot_specs (checks : List DeclarativeCheck) : List Manifest := checks.map (·.manifest)

variable [u : UnicodeTables]

def _manifest_to_check (row : AgentSkill) : Option DeclarativeCheck :=
  if row.manifest.declarative = true ∧ row.enabled = true then
    build_declarative_check (_row_spec row.name row.version row.check_class row.manifest)
  else none

/-- The enabled declarative checks an organization sees: the shared ones and its own. -/
def load_declarative_checks (rows : List AgentSkill) (org_id : ℕ) : List DeclarativeCheck :=
  (rows.filter fun row ↦ row.org_id.isNone || row.org_id == some org_id).filterMap
    _manifest_to_check

def checks_from_snapshot (snapshot : List Manifest) : List DeclarativeCheck :=
  snapshot.filterMap build_declarative_check

/-- Each check of the list is what its manifest is built into. -/
def Built (checks : List DeclarativeCheck) : Prop :=
  ∀ d ∈ checks, build_declarative_check d.manifest = some d

theorem built_filterMap (specs : List Manifest) : Built (specs.filterMap build_declarative_check) := by
  intro d hd
  obtain ⟨m, -, hm⟩ := List.mem_filterMap.1 hd
  rw [build_declarative_check_manifest hm, hm]

theorem built_load_declarative_checks (rows : List AgentSkill) (org_id : ℕ) :
    Built (load_declarative_checks rows org_id) := by
  intro d hd
  obtain ⟨row, -, hrow⟩ := List.mem_filterMap.1 hd
  rw [_manifest_to_check] at hrow
  split at hrow
  · rw [build_declarative_check_manifest hrow, hrow]
  · cases hrow

/-- **The snapshot is faithful.** -/
theorem checks_from_snapshot_snapshot_specs {checks : List DeclarativeCheck} (h : Built checks) :
    checks_from_snapshot (snapshot_specs checks) = checks := by
  induction checks with
  | nil => rfl
  | cons d checks ih =>
    rw [snapshot_specs, List.map_cons, checks_from_snapshot,
      List.filterMap_cons_some (h d List.mem_cons_self)]
    exact congrArg _ (ih fun d' hd' ↦ h d' (List.mem_cons_of_mem _ hd'))

end Sentrik
