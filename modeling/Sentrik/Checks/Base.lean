import Mathlib.Data.List.Nodup
import Sentrik.Core.Basic

/-!
# Checks and their registry

A check is known to the engine by its name, its class, its intensity and whether it changes state.
What a check does when it runs is no part of this model: it is a use of the guarded client.

The registry of built-in checks is a dictionary by name in insertion order. `_Registry` carries the
distinctness of the names as a field, so `get` finds exactly the registered checks
(`_Registry.get_eq_some_iff`).

A **declarative** check has no code: it is built from a manifest, and its class is any string. Its
name is any string as well, that of a built-in check included.
-/

namespace Sentrik

/-! ### Built-in checks -/

inductive CheckClass
  | SQLI | XSS | BOLA | AUTHZ | SECURITY_HEADERS | INFO_DISCLOSURE | OPEN_REDIRECT | BUSINESS_LOGIC
  | BUSINESS_FLOW | LLM_PROMPT_INJECTION
  deriving DecidableEq, Repr

def CheckClass.value : CheckClass → String
  | SQLI => "sqli"
  | XSS => "xss"
  | BOLA => "bola"
  | AUTHZ => "authz"
  | SECURITY_HEADERS => "security_headers"
  | INFO_DISCLOSURE => "info_disclosure"
  | OPEN_REDIRECT => "open_redirect"
  | BUSINESS_LOGIC => "business_logic"
  | BUSINESS_FLOW => "business_flow"
  | LLM_PROMPT_INJECTION => "llm_prompt_injection"

structure BaseCheck where
  name : String := "base"
  check_class : CheckClass := .INFO_DISCLOSURE
  intensity : TestIntensity := .PASSIVE
  /-- Whether the check mutates state. -/
  state_changing : Bool := false
  deriving DecidableEq, Repr

/-! ### The registry -/

/-- The built-in checks, by name. -/
structure _Registry where
  _checks : List BaseCheck
  nodup : (_checks.map (·.name)).Nodup

namespace _Registry

def empty : _Registry where
  _checks := []
  nodup := List.nodup_nil

/-- Writing a key of a dictionary: in place if it is there, at the end otherwise. -/
def register (r : _Registry) (check : BaseCheck) : _Registry where
  _checks :=
    if r._checks.any (·.name == check.name) then
      r._checks.map fun c ↦ if c.name = check.name then check else c
    else r._checks ++ [check]
  nodup := by
    split
    next =>
      have hnames : ((r._checks.map fun c ↦ if c.name = check.name then check else c).map
          (·.name)) = r._checks.map (·.name) := by
        rw [List.map_map]
        refine List.map_congr_left fun c _ ↦ ?_
        rw [Function.comp_apply]
        split
        next h => exact h.symm
        next => rfl
      rw [hnames]
      exact r.nodup
    next hnew =>
      rw [List.map_append, List.nodup_append]
      refine ⟨r.nodup, List.nodup_singleton _, fun a ha b hb hab ↦ hnew ?_⟩
      obtain ⟨c, hc, rfl⟩ := List.mem_map.1 ha
      rw [List.map_singleton, List.mem_singleton] at hb
      exact List.any_eq_true.2 ⟨c, hc, beq_iff_eq.2 (hab.trans hb)⟩

def all (r : _Registry) : List BaseCheck := r._checks

def by_class (r : _Registry) (check_class : String) : List BaseCheck :=
  r._checks.filter (·.check_class.value == check_class)

def get (r : _Registry) (name : String) : Option BaseCheck := r._checks.find? (·.name == name)

/-- The classes of the registered checks, sorted. -/
def classes (r : _Registry) : List String :=
  (r._checks.map (·.check_class.value)).dedup.insertionSort (· ≤ ·)

/-- What registering checks one after another makes of the empty registry. -/
def ofList (checks : List BaseCheck) : _Registry := checks.foldl register empty

variable {r : _Registry} {b c check : BaseCheck} {name check_class : String}

theorem get_mem (h : r.get name = some c) : c ∈ r.all := List.mem_of_find?_eq_some h

theorem get_name (h : r.get name = some c) : c.name = name := by
  have hname := List.find?_some h
  exact beq_iff_eq.1 hname

theorem eq_of_name (hb : b ∈ r.all) (hc : c ∈ r.all) (h : b.name = c.name) : b = c :=
  List.inj_on_of_nodup_map r.nodup hb hc h

theorem get_eq_some_iff : r.get name = some c ↔ c ∈ r.all ∧ c.name = name := by
  refine ⟨fun h ↦ ⟨get_mem h, get_name h⟩, fun ⟨hc, hname⟩ ↦ ?_⟩
  cases h : r.get name with
  | none =>
    have hne := List.find?_eq_none.1 h c hc
    exact absurd (beq_iff_eq.2 hname) hne
  | some b => rw [eq_of_name (get_mem h) hc ((get_name h).trans hname.symm)]

theorem mem_by_class : c ∈ r.by_class check_class ↔ c ∈ r.all ∧ c.check_class.value = check_class := by
  rw [by_class, List.mem_filter, beq_iff_eq, all]

/-- A check is registered under its own name, whatever was registered before. -/
theorem get_register_self : (r.register check).get check.name = some check := by
  refine get_eq_some_iff.2 ⟨?_, rfl⟩
  show check ∈ (r.register check)._checks
  rw [register]
  dsimp only
  split
  next h =>
    obtain ⟨b, hb, hname⟩ := List.any_eq_true.1 h
    exact List.mem_map.2 ⟨b, hb, if_pos (beq_iff_eq.1 hname)⟩
  next => exact List.mem_append_right _ List.mem_cons_self

end _Registry

/-! ### Declarative checks -/

/-- The types of detector that can be run. -/
def DETECTOR_TYPES : List String :=
  ["error_signature", "reflection", "status_code", "header_missing", "header_present",
    "header_reflects"]

/-- The runnable spec of a declarative check, as far as planning and policy read it. A manifest whose
`detector` is not a dictionary with a `type` has no detector here. -/
structure Manifest where
  name : String := "declarative.unnamed"
  version : String := "1.0.0"
  check_class : String := "info_disclosure"
  intensity : String := "passive"
  state_changing : Bool := false
  allowed_environments : List String := []
  detector : Option String := none
  /-- The provenance reference, which has a hash of the whole content in it. -/
  skill_ref : String := ""
  deriving DecidableEq, Repr

def manifest_is_executable (manifest : Manifest) : Bool :=
  manifest.detector.any (DETECTOR_TYPES.contains ·)

structure DeclarativeCheck where
  manifest : Manifest
  name : String
  /-- Stands in for a `CheckClass`. -/
  _class : String
  intensity : TestIntensity
  state_changing : Bool
  allowed_environments : List String
  deriving DecidableEq, Repr

variable [u : UnicodeTables]

def DeclarativeCheck.ofManifest (manifest : Manifest) : DeclarativeCheck where
  manifest
  name := manifest.name
  _class := manifest.check_class
  intensity := _coerce_intensity manifest.intensity
  state_changing := manifest.state_changing
  allowed_environments :=
    (manifest.allowed_environments.filter fun e ↦ Text.strip e.toList ≠ []).map fun e ↦
      String.ofList (u.lower e.toList)

/-- The check of a stored manifest, if it can be run. -/
def build_declarative_check (manifest : Manifest) : Option DeclarativeCheck :=
  if manifest_is_executable manifest then some (.ofManifest manifest) else none

/-- A check keeps the manifest it is built from, so it can be built from it again. -/
theorem build_declarative_check_manifest {m : Manifest} {d : DeclarativeCheck}
    (h : build_declarative_check m = some d) : d.manifest = m := by
  rw [build_declarative_check] at h
  split at h
  next => rw [← Option.some.inj h, DeclarativeCheck.ofManifest]
  next => cases h

/-! ### Either kind -/

/-- A check of either kind. -/
inductive Check
  | builtin (c : BaseCheck)
  | declarative (c : DeclarativeCheck)
  deriving DecidableEq, Repr

namespace Check

def name : Check → String
  | builtin c => c.name
  | declarative c => c.name

/-- The value of the class. -/
def check_class : Check → String
  | builtin c => c.check_class.value
  | declarative c => c._class

def intensity : Check → TestIntensity
  | builtin c => c.intensity
  | declarative c => c.intensity

def state_changing : Check → Bool
  | builtin c => c.state_changing
  | declarative c => c.state_changing

end Check

end Sentrik
