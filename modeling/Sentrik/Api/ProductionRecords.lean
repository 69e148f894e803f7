import Sentrik.Api.Targets
import Sentrik.Security.Sandbox

/-!
# The environment of a record

Target and record have an environment each. That of the record comes from the request body, by default
`"lab"`, and is what the guard and the sandbox read; that of the target is checked to be one when the
target is created, and is not read again.

`guarded_iff` says when the guardrails of production hold for a record: when its own environment reads as
production. `guarded_iff_matching` is about runs: the verified records of the production targets are all
guarded exactly when every call that created one of them asked for production.
-/

namespace Sentrik

section

variable [u : UnicodeTables]

/-- **The guardrails of production hold for a record**: the guard denies every invasive check and every
request to a private or loopback address, and the sandbox denies private addresses. -/
structure Guarded (settings : Settings) (record : AuthorizationRecord) : Prop where
  invasive : ∀ requests_made check_class,
    (ScopeGuard.check_class_allowed ⟨record, requests_made, settings⟩ check_class .INVASIVE).allowed = false
  network : ∀ requests_made method url is_redirect answer p info d, parse_url url = .ok p →
    resolve_host p.host p.port true answer = .ok info → (info.is_private || info.is_loopback) = true →
      ScopeGuard.check_request ⟨record, requests_made, settings⟩ method url is_redirect answer = .ok d →
        d.allowed = false
  sandbox : (SandboxProfile.from_record record settings).allow_private = false

theorem guarded_iff {settings : Settings} {record : AuthorizationRecord} :
    Guarded settings record ↔ _coerce_env record.environment = .PRODUCTION := by
  constructor
  · intro h
    have hsandbox : _PRIVATE_OK_ENVS.contains (_coerce_env record.environment) = false := h.sandbox
    cases henv : _coerce_env record.environment with
    | PRODUCTION => rfl
    | STAGING | DEVELOPMENT | LAB =>
      rw [henv] at hsandbox
      cases hsandbox
  · intro henv
    refine ⟨fun n c ↦ ?_, fun n method url is_redirect answer p info d hparse hresolve hprivate h ↦ ?_, ?_⟩
    · rw [← Bool.not_eq_true, ScopeGuard.check_class_allowed_iff]
      rintro ⟨-, -, hallowed⟩
      exact hallowed ⟨rfl, henv⟩
    · rw [← Bool.not_eq_true]
      intro hd
      obtain ⟨-, p', info', hlocation, -⟩ := ScopeGuard.check_request_eq_allow_iff.1 ⟨h, hd⟩
      -- the address the guard has looked at is this one
      obtain rfl := Except.ok.inj (hparse.symm.trans hlocation.parsed)
      obtain rfl := Except.ok.inj (hresolve.symm.trans hlocation.resolved)
      have hallowed := hlocation.network hprivate
      rw [ScopeGuard._private_allowed, henv] at hallowed
      cases hallowed
    · rw [SandboxProfile.from_record, henv]
      rfl

namespace TargetsStore

section

variable (settings : Settings) (s : TargetsStore)

/-- The record is attached to a target whose own environment is production. -/
def OnProduction (record : AuthorizationRecord) : Prop :=
  ∃ t ∈ s.targets, t.id = record.target_id ∧ t.environment = Environment.PRODUCTION.value

/-- **Environment soundness**: the verified records of production targets are guarded. -/
def ProductionGuarded : Prop :=
  ∀ record ∈ s.records, record.status = VerificationStatus.VERIFIED.value → s.OnProduction record →
    Guarded settings record

/-- **The condition on a call**: a record for a production target with a verified ownership asks for an
environment that reads as production. -/
def Matching : ApiCall → Prop
  | .create_authorization org_id target_id body =>
    ∀ t, s._get_target org_id target_id = .ok t → (s.verified_own target_id).isSome →
      t.environment = Environment.PRODUCTION.value → _coerce_env body.environment = .PRODUCTION
  | _ => True

end

variable {settings scope : Settings} {sha256 : Text → Text} {s s' : TargetsStore}

/-- Targets have ids of their own and a host, and records are of targets that are there. -/
structure Registered (s : TargetsStore) : Prop where
  below : ∀ t ∈ s.targets, t.id < s.nextId
  unique : ∀ t ∈ s.targets, ∀ t' ∈ s.targets, t.id = t'.id → t = t'
  host : ∀ t ∈ s.targets, ∃ host, _host_of t.base_url = .ok host
  records : ∀ record ∈ s.records, record.target_id < s.nextId

theorem create_target_spec {org_id : ℕ} {body : TargetCreate} (h : s.create_target org_id body = .ok s') :
    ∃ row : Target, row.id = s.nextId ∧ (∃ host, _host_of row.base_url = .ok host) ∧
      s' = { s with targets := s.targets ++ [row], nextId := s.nextId + 1 } := by
  simp only [create_target, bind, Except.bind] at h
  split at h
  · cases h
  next host hhost =>
    split at h
    · cases h
    split at h
    · cases h
    · refine ⟨_, ?_, ⟨host, ?_⟩, (Except.ok.inj h).symm⟩
      · rfl
      · exact hhost

/-- A record is of the target the call is about, with the environment of the body. -/
theorem create_authorization_spec {org_id target_id : ℕ} {body : AuthorizationCreate}
    (h : s.create_authorization org_id target_id body = .ok s') :
    ∃ t row, s._get_target org_id target_id = .ok t ∧ row.target_id = target_id ∧
      row.environment = body.environment ∧ row.status = recordStatus (s.verified_own target_id) ∧
        s' = { s with records := s.records ++ [row] } := by
  simp only [create_authorization, bind, Except.bind] at h
  split at h
  · cases h
  next t ht =>
    split at h
    · cases h
    split at h
    · cases h
    split at h
    · cases h
    · exact ⟨t, _, ht, rfl, rfl, rfl, (Except.ok.inj h).symm⟩

/-- A call that raises meets the condition: with a verified ownership the only request that is refused
asks for production. -/
theorem matching_of_error (hR : s.Registered) {org_id target_id : ℕ} {body : AuthorizationCreate}
    {e : ApiError} (h : s.create_authorization org_id target_id body = .error e) :
    s.Matching (.create_authorization org_id target_id body) := by
  intro t ht hown _
  obtain ⟨hfind, -⟩ := _get_target_ok ht
  obtain ⟨host, hhost⟩ := hR.host t (List.mem_of_find?_eq_some hfind)
  simp only [create_authorization, bind, Except.bind, ht, hhost] at h
  split at h
  next hscope =>
    rw [Option.isNone_iff_eq_none] at hscope
    rw [hscope.2] at hown
    cases hown
  split at h
  next hinvasive =>
    rw [hinvasive.2]
    exact _coerce_env_value .PRODUCTION
  next => cases h

omit u in
theorem id_of_find {target_id : ℕ} {t : Target} (h : s.targets.find? (·.id == target_id) = some t) :
    t.id = target_id := by
  have hbeq := List.find?_some h
  exact eq_of_beq hbeq

omit u in
theorem verified_iff {own : Option OwnershipVerification} :
    recordStatus own = VerificationStatus.VERIFIED.value ↔ own.isSome = true := by
  refine ⟨recordStatus_verified, fun h ↦ ?_⟩
  rw [recordStatus, if_pos h]

/-- A call about targets or ownerships keeps the records, and adds at most one target, with a new id. -/
theorem kept_of_effect {c : ApiCall} (hc : ∀ org_id target_id body,
    c ≠ .create_authorization org_id target_id body) (h : Effect scope sha256 s c s') :
    s'.records = s.records ∧ (s'.targets = s.targets ∨
      ∃ row : Target, row.id = s.nextId ∧ s'.targets = s.targets ++ [row]) := by
  cases h with
  | nothing | ownership | outcome => exact ⟨rfl, Or.inl rfl⟩
  | target row hid => exact ⟨rfl, Or.inr ⟨row, hid, rfl⟩⟩
  | @record org_id target_id body => exact absurd rfl (hc org_id target_id body)

theorem Registered.step {c : ApiCall} (hR : s.Registered) (h : s.step scope sha256 c = some s') :
    s'.Registered := by
  obtain rfl := Option.some.inj h
  cases hcall : s.call scope sha256 c with
  | error e => exact hR
  | ok s' =>
    cases c with
    | create_target org_id body =>
      obtain ⟨row, hid, hhost, rfl⟩ := create_target_spec hcall
      have hne : ∀ t ∈ s.targets, t.id ≠ row.id := fun t ht ↦ hid ▸ (hR.below t ht).ne
      refine ⟨fun t ht ↦ ?_, fun t ht t' ht' heq ↦ ?_, fun t ht ↦ ?_,
        fun record hrecord ↦ (hR.records record hrecord).trans (Nat.lt_succ_self _)⟩
      · rcases List.mem_append.1 ht with ht | ht
        · exact (hR.below t ht).trans (Nat.lt_succ_self _)
        · rw [List.mem_singleton.1 ht, hid]
          exact Nat.lt_succ_self _
      · rcases List.mem_append.1 ht with ht | ht <;> rcases List.mem_append.1 ht' with ht' | ht'
        · exact hR.unique t ht t' ht' heq
        · rw [List.mem_singleton.1 ht'] at heq
          exact absurd heq (hne t ht)
        · rw [List.mem_singleton.1 ht] at heq
          exact absurd heq.symm (hne t' ht')
        · rw [List.mem_singleton.1 ht, List.mem_singleton.1 ht']
      · rcases List.mem_append.1 ht with ht | ht
        · exact hR.host t ht
        · rw [List.mem_singleton.1 ht]
          exact hhost
    | start_ownership org_id target_id body token probe =>
      cases effect_of_start_ownership scope sha256 hcall with
      | nothing => exact hR
      | ownership =>
        exact ⟨fun t ht ↦ (hR.below t ht).trans (Nat.lt_succ_self _), hR.unique, hR.host,
          fun record hrecord ↦ (hR.records record hrecord).trans (Nat.lt_succ_self _)⟩
    | verify_ownership org_id target_id ownership_id probe =>
      cases effect_of_verify_ownership scope sha256 hcall with
      | nothing => exact hR
      | outcome => exact ⟨hR.below, hR.unique, hR.host, hR.records⟩
    | create_authorization org_id target_id body =>
      obtain ⟨t, row, ht, htarget, -, -, rfl⟩ := create_authorization_spec hcall
      obtain ⟨hfind, -⟩ := _get_target_ok ht
      refine ⟨hR.below, hR.unique, hR.host, fun record hrecord ↦ ?_⟩
      rcases List.mem_append.1 hrecord with hrecord | hrecord
      · exact hR.records record hrecord
      · rw [List.mem_singleton.1 hrecord, htarget]
        have hid : t.id = target_id := id_of_find hfind
        exact hid ▸ hR.below t (List.mem_of_find?_eq_some hfind)

/-- A new target is none of an old record. -/
theorem onProduction_congr (hR : s.Registered) {record : AuthorizationRecord} (hrecord : record ∈ s.records)
    (htargets : s'.targets = s.targets ∨ ∃ row : Target, row.id = s.nextId ∧ s'.targets = s.targets ++ [row]) :
    s'.OnProduction record ↔ s.OnProduction record := by
  rcases htargets with htargets | ⟨row, hid, htargets⟩
  · rw [OnProduction, htargets]
    exact Iff.rfl
  · rw [OnProduction, htargets]
    constructor
    · rintro ⟨t, ht, htid, henv⟩
      rcases List.mem_append.1 ht with ht | ht
      · exact ⟨t, ht, htid, henv⟩
      · rw [List.mem_singleton.1 ht, hid] at htid
        exact absurd (htid ▸ hR.records record hrecord) (lt_irrefl _)
    · rintro ⟨t, ht, hprod⟩
      exact ⟨t, List.mem_append_left _ ht, hprod⟩

/-- **The step lemma.** -/
theorem productionGuarded_step {c : ApiCall} (hR : s.Registered) (h : s.step scope sha256 c = some s') :
    ProductionGuarded settings s' ↔ ProductionGuarded settings s ∧ s.Matching c := by
  by_cases hc : ∃ org_id target_id body, c = .create_authorization org_id target_id body
  · obtain ⟨org_id, target_id, body, rfl⟩ := hc
    obtain rfl := Option.some.inj h
    cases hcall : s.call scope sha256 (.create_authorization org_id target_id body) with
    | error e => exact (and_iff_left (matching_of_error hR hcall)).symm
    | ok s' =>
      obtain ⟨t, row, ht, htarget, henv, hstatus, rfl⟩ := create_authorization_spec hcall
      obtain ⟨hfind, -⟩ := _get_target_ok ht
      have htmem := List.mem_of_find?_eq_some hfind
      have htid : t.id = target_id := id_of_find hfind
      have hon : s.OnProduction row ↔ t.environment = Environment.PRODUCTION.value := by
        constructor
        · rintro ⟨t', ht', hid', henv'⟩
          rw [hR.unique t htmem t' ht' (htid.trans (htarget.symm.trans hid'.symm))]
          exact henv'
        · exact fun henv' ↦ ⟨t, htmem, htid.trans htarget.symm, henv'⟩
      have hnew : (row.status = VerificationStatus.VERIFIED.value → s.OnProduction row →
          Guarded settings row) ↔ s.Matching (.create_authorization org_id target_id body) := by
        rw [hstatus, verified_iff, hon, guarded_iff, henv]
        refine ⟨fun h t' ht' hown hprod ↦ ?_, fun h hown hprod ↦ h t ht hown hprod⟩
        obtain rfl := Except.ok.inj (ht.symm.trans ht')
        exact h hown hprod
      rw [← hnew]
      constructor
      · intro h
        exact ⟨fun record hrecord ↦ h record (List.mem_append_left _ hrecord),
          h row (List.mem_append_right _ (List.mem_singleton_self row))⟩
      · rintro ⟨hold, hrow⟩ record hrecord
        rcases List.mem_append.1 hrecord with hrecord | hrecord
        · exact hold record hrecord
        · exact List.mem_singleton.1 hrecord ▸ hrow
  · have hmatching : s.Matching c := by
      cases c with
      | create_authorization org_id target_id body => exact absurd ⟨org_id, target_id, body, rfl⟩ hc
      | create_target | start_ownership | verify_ownership => trivial
    rw [and_iff_left hmatching]
    obtain ⟨hrecords, htargets⟩ := kept_of_effect (fun org_id target_id body heq ↦
      hc ⟨org_id, target_id, body, heq⟩) (effect_of_step scope sha256 h)
    rw [ProductionGuarded, ProductionGuarded, hrecords]
    refine forall_congr' fun record ↦ forall_congr' fun hrecord ↦ forall_congr' fun _ ↦ ?_
    rw [onProduction_congr hR hrecord htargets]

/-- **Environment soundness over runs.** -/
theorem guarded_iff_matching {calls : List ApiCall}
    (h : Machine.run (step scope sha256) {} calls = some s) :
    ProductionGuarded settings s ↔ Machine.Along (step scope sha256) Matching {} calls := by
  have hempty : ProductionGuarded settings {} := fun record hrecord ↦ by cases hrecord
  have hregistered : Registered {} :=
    ⟨fun t ht ↦ (by cases ht), fun t ht ↦ (by cases ht), fun t ht ↦ (by cases ht),
      fun record hrecord ↦ (by cases hrecord)⟩
  rw [Machine.iff_along_of_run (fun hR hs ↦ Registered.step hR hs)
    (fun hR hs ↦ productionGuarded_step hR hs) h hregistered]
  exact and_iff_right hempty

end TargetsStore

end

/-! ### Sample runs -/

section

attribute [local instance] asciiTables

/-- A production target of a public host, whose ownership is attested, and a record for it. -/
def attestedRecord (body : AuthorizationCreate) : List TargetsStore.ApiCall :=
  let base_url := "https://shop.example".toList
  let attestation := "we are permitted to test this host".toList
  [.create_target 1 { name := "shop".toList, base_url, environment := "production" },
    .start_ownership 1 0 { method := "manual_attestation", attestation := some attestation } []
      ⟨none, .error ""⟩,
    .create_authorization 1 0 body]

theorem labRecord_not_guarded : ∃ s,
    Machine.run (TargetsStore.step {} id) {} (attestedRecord { intensity := "invasive" }) = some s ∧
      s.records.map (·.status) = ["verified"] ∧ ¬s.ProductionGuarded {} := by
  obtain ⟨s, hs, hstatus, record, hrecord, hverified, hon, henv⟩ : ∃ s,
      Machine.run (TargetsStore.step {} id) {} (attestedRecord { intensity := "invasive" }) = some s ∧
        s.records.map (·.status) = ["verified"] ∧ ∃ record ∈ s.records, record.status = "verified" ∧
          (∃ t ∈ s.targets, t.id = record.target_id ∧ t.environment = "production") ∧
            record.environment = "lab" := by
    decide +kernel
  refine ⟨s, hs, hstatus, fun h ↦ ?_⟩
  have hguarded := guarded_iff.1 (h record hrecord hverified hon)
  rw [henv] at hguarded
  exact absurd hguarded (by decide)

theorem guarded_iff_matching_production : ∃ s,
    Machine.run (TargetsStore.step {} id) {} (attestedRecord { environment := "production" }) = some s ∧
      s.records.length = 1 ∧ s.ProductionGuarded {} := by
  obtain ⟨s, hs, hlength, hrecords⟩ : ∃ s,
      Machine.run (TargetsStore.step {} id) {} (attestedRecord { environment := "production" }) =
        some s ∧ s.records.length = 1 ∧ ∀ record ∈ s.records, record.environment = "production" := by
    decide +kernel
  refine ⟨s, hs, hlength, (TargetsStore.guarded_iff_matching hs).2 ?_⟩
  refine ⟨trivial, fun _ _ ↦ ⟨trivial, fun _ _ ↦ ⟨fun t _ _ _ ↦ ?_, fun _ _ ↦ trivial⟩⟩⟩
  exact _coerce_env_value .PRODUCTION

end

end Sentrik
