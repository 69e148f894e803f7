import Sentrik.Orchestration.Clearance

/-!
# Which checks a run executes

Policy judges the class a step stores; what runs is the check the step resolves to. For a step planned
for a built-in check the two agree. A declarative check may bear the name of a built-in check, or of
another declarative one, of a class that nobody authorized: then the step is authorized by its class
and runs the check of that name.

`ResolvesAuthorized` excludes exactly that, at the moment of planning.
-/

namespace Sentrik

/-- A check the record authorizes: its class, its intensity, and nothing invasive in production. -/
def Authorized (record : AuthorizationRecord) (c : Check) : Prop :=
  (record.allowed_check_classes ≠ [] → c.check_class ∈ record.allowed_check_classes) ∧
    _INTENSITY_RANK c.intensity ≤ _INTENSITY_RANK (_coerce_intensity record.intensity) ∧
      ¬(c.intensity = .INVASIVE ∧ _coerce_env record.environment = .PRODUCTION)

instance (record : AuthorizationRecord) (c : Check) : Decidable (Authorized record c) :=
  inferInstanceAs (Decidable (_ ∧ _))

/-- Checks the record authorizes may run, for any step. -/
def authorizedClearance (record : AuthorizationRecord) : Clearance where
  clear _ _ c := Authorized record c
  mono _ h := h
  wanted _ := True

namespace Orchestrator

variable [u : UnicodeTables]

/-- The check that the name of `d` resolves to is of an authorized class, unless policy denies it. -/
def NameAuthorized (registry : _Registry) (record : AuthorizationRecord) (settings : Settings)
    (declaratives : List DeclarativeCheck) (d : DeclarativeCheck) : Prop :=
  ∀ c ∈ _resolve_check registry d.name d._class declaratives,
    (policyDecision (_make_guard record settings) d._class c).allowed = true →
      record.allowed_check_classes ≠ [] → c.check_class ∈ record.allowed_check_classes

instance (registry : _Registry) (record : AuthorizationRecord) (settings : Settings)
    (declaratives : List DeclarativeCheck) (d : DeclarativeCheck) :
    Decidable (NameAuthorized registry record settings declaratives d) :=
  inferInstanceAs (Decidable (∀ c ∈ _resolve_check registry d.name d._class declaratives, _))

/-- The name of every declarative check that planning considers resolves to an authorized one. -/
def ResolvesAuthorized (registry : _Registry) (record : AuthorizationRecord) (settings : Settings)
    (o : Orchestrator) (e : EngineEvent) : Prop :=
  ∀ multi ∈ e.planning, ∀ m ∈ o.main, ∀ ev ∈ (offered settings o m).map _endpoint_view,
    ∀ d ∈ o._declaratives,
      Considers (effective record o.assessment) (_coerce_intensity record.intensity) multi ev
          (.declarative d) →
        NameAuthorized registry record settings o._declaratives d

instance (registry : _Registry) (record : AuthorizationRecord) (settings : Settings)
    (o : Orchestrator) (e : EngineEvent) :
    Decidable (ResolvesAuthorized registry record settings o e) :=
  inferInstanceAs (Decidable (∀ multi ∈ e.planning, _))

variable {registry : _Registry} {record : AuthorizationRecord} {settings : Settings}

/-- A check that policy permits under its own class is authorized. -/
theorem authorized_of_policy {cclass : String} {c : Check}
    (h : (policyDecision (_make_guard record settings) cclass c).allowed = true)
    (hclass : record.allowed_check_classes ≠ [] → c.check_class ∈ record.allowed_check_classes) :
    Authorized record c := by
  obtain ⟨-, hrank, hinvasive⟩ :=
    ScopeGuard.check_class_allowed_iff.1 (policyDecision_allowed.1 h).1
  exact ⟨hclass, hrank, hinvasive⟩

theorem respects_of_resolvesAuthorized {o : Orchestrator} {e : EngineEvent}
    (h : ResolvesAuthorized registry record settings o e) :
    Respects registry record settings (authorizedClearance record) o e := by
  refine ⟨fun multi hmulti m hm ev hev p hp hconsiders ↦ ⟨trivial, fun c hc id hallowed ↦ ?_⟩,
    fun cclass _ _ b hpick hallowed ↦ ⟨trivial, fun _ ↦ ?_⟩⟩
  · suffices hauth : Authorized record c from ⟨fun _ ↦ hauth, hauth⟩
    refine authorized_of_policy hallowed fun hne ↦ ?_
    rcases mem_allChecks.1 hp with ⟨b, hb, rfl⟩ | ⟨d, hd, rfl⟩
    · -- a step for a built-in check resolves within its class
      have hclass : c.check_class = b.check_class.value := _resolve_check_builtin_class hb rfl hc
      rw [hclass]
      exact (ScopeGuard.check_class_allowed_iff.1 (policyDecision_allowed.1 hallowed).1).1 hne
    · exact h multi hmulti m hm ev hev d hd hconsiders c hc hallowed hne
  · obtain ⟨hclass, hrank, hinvasive⟩ := ScopeGuard.check_class_allowed_iff.1 hallowed
    refine ⟨fun hne ↦ ?_, hrank, hinvasive⟩
    change b.check_class.value ∈ record.allowed_check_classes
    rw [(_pick_check_mem hpick).2]
    exact hclass hne

end Orchestrator

section

attribute [local instance] asciiTables

/-- A tenant's skill, and the run of an inline engine up to the first call of a check. -/
def skillRun (name : String) : List EngineEvent :=
  .register [{ name, check_class := "cors", manifest := { detector := some "header_missing" } }] ::
    (throughPolicy [sampleEndpoint] ++ throughDispatch ++ runAgent 0)

end

end Sentrik
