import Sentrik.Api.Targets
import Sentrik.Security.ReferenceHttpx

/-!
# What a verified record may reach

`create_authorization` makes a record verified as soon as its target has one verified ownership, and
takes the hosts of the record from the request body as they are: once anything is verified, nothing
compares them with what was verified.

`ProvenCall` is the side condition that closes the gap: a call that creates a verified record lists
hosts that are covered by verified ownerships at that moment, and a verification that is run again on
a verified row still finds its proof. Under it every verified record covers only proven hosts in every
reachable store (`verified_records_proven`), and so does every request a guard over such a record
allows.

Hosts are compared as the guard reads them (`normalHost`).
-/

namespace Sentrik

section

variable [u : UnicodeTables]

/-- A host as the guard reads it. -/
def normalHost (h : Text) : Text := Text.strip (u.lower h)

/-- The (normal) entry of a host list is for the (normal) host: a wildcard entry is for its suffix,
which has to be free of pattern characters; any other entry is the host. -/
def EntryFor (entry host : Text) : Prop :=
  if Text.startswith entry "*.".toList then entry = "*.".toList ++ host ∧ Glob.IsLiteral host
  else entry = host

instance (entry host : Text) : Decidable (EntryFor entry host) := by
  rw [EntryFor]
  infer_instance

namespace TargetsStore

/-- The organization has a verified ownership for what the entry is for. -/
def Proven (s : TargetsStore) (org_id : ℕ) (entry : Text) : Prop :=
  ∃ row ∈ s.ownerships, row.org_id = org_id ∧ row.status = .VERIFIED ∧
    EntryFor (normalHost entry) (normalHost row.host)

/-- **The side condition on a call.** -/
def ProvenCall (settings : Settings) (s : TargetsStore) : ApiCall → Prop
  | .create_authorization org_id target_id body =>
    ∀ t host, s.targets.find? (·.id == target_id) = some t → t.org_id = org_id →
      _host_of t.base_url = .ok host → (s.verified_own target_id).isSome →
        (body.allowed_hosts = [] → ¬Text.startswith (normalHost host) "*.".toList) ∧
          ∀ entry ∈ body.allowed_hosts, s.Proven org_id entry
  | .verify_ownership org_id target_id ownership_id probe =>
    ∀ row, s.ownerships.find? (·.id == ownership_id) = some row → row.target_id = target_id →
      row.org_id = org_id → row.status = .VERIFIED →
        StillProven settings row.method row.host row.token probe
  | _ => True

/-! ### The invariant -/

/-- **The invariant**: ids are used once, an ownership is for the host of its target, and a verified
record covers proven hosts. -/
structure ProvenInv (s : TargetsStore) : Prop where
  fresh : ∀ row ∈ s.ownerships, row.id < s.nextId
  nodup : (s.ownerships.map (·.id)).Nodup
  owned : ∀ row ∈ s.ownerships, ∃ t, s.targets.find? (·.id == row.target_id) = some t ∧
    t.org_id = row.org_id ∧ _host_of t.base_url = .ok row.host
  covered : ∀ record ∈ s.records, record.status = VerificationStatus.VERIFIED.value →
    ∀ entry ∈ record.allowed_hosts, s.Proven record.org_id entry

theorem Proven.mono {s s' : TargetsStore} {org_id : ℕ} {entry : Text} (h : s.Proven org_id entry)
    (hrows : ∀ row ∈ s.ownerships, row.status = .VERIFIED → ∃ row' ∈ s'.ownerships,
      row'.org_id = row.org_id ∧ row'.status = .VERIFIED ∧ row'.host = row.host) :
    s'.Proven org_id entry := by
  obtain ⟨row, hrow, horg, hstatus, hfor⟩ := h
  obtain ⟨row', hrow', horg', hstatus', hhost⟩ := hrows row hrow hstatus
  exact ⟨row', hrow', horg'.trans horg, hstatus', hhost ▸ hfor⟩

theorem ProvenInv.init : ProvenInv {} :=
  ⟨fun _ h ↦ absurd h List.not_mem_nil, List.nodup_nil, fun _ h ↦ absurd h List.not_mem_nil,
    fun _ h ↦ absurd h List.not_mem_nil⟩

/-- Rows with the same id are the same row. -/
theorem ProvenInv.eq_of_id {s : TargetsStore} (h : ProvenInv s) {r r' : OwnershipVerification}
    (hr : r ∈ s.ownerships) (hr' : r' ∈ s.ownerships) (hid : r.id = r'.id) : r = r' :=
  List.inj_on_of_nodup_map h.nodup hr hr' hid

/-- The host of the target itself is proven once the target has a verified ownership. -/
theorem ProvenInv.target_host {s : TargetsStore} (h : ProvenInv s) {target_id : ℕ} {t : Target}
    {host : Text} (ht : s.targets.find? (·.id == target_id) = some t)
    (hhost : _host_of t.base_url = .ok host) (hown : (s.verified_own target_id).isSome)
    (hplain : ¬Text.startswith (normalHost host) "*.".toList) : s.Proven t.org_id host := by
  obtain ⟨row, hrow⟩ := Option.isSome_iff_exists.1 hown
  have hmem := List.mem_of_find?_eq_some hrow
  have hpred := List.find?_some hrow
  rw [Bool.and_eq_true, beq_iff_eq, beq_iff_eq] at hpred
  obtain ⟨t', ht', horg, hhost'⟩ := h.owned row hmem
  rw [hpred.1] at ht'
  obtain rfl : t' = t := Option.some.inj (ht'.symm.trans ht)
  refine ⟨row, hmem, horg.symm, hpred.2, ?_⟩
  rw [EntryFor, if_neg hplain, Except.ok.inj (hhost.symm.trans hhost')]

/-- **Every call that meets the side condition keeps the invariant.** -/
theorem ProvenInv.step {settings : Settings} {sha256 : Text → Text} {s s' : TargetsStore}
    {c : ApiCall} (h : ProvenInv s) (hc : ProvenCall settings s c)
    (hstep : s.step settings sha256 c = some s') : ProvenInv s' := by
  cases effect_of_step settings sha256 hstep with
  | nothing => exact h
  | target row hid =>
    refine ⟨fun r hr ↦ (h.fresh r hr).trans (Nat.lt_succ_self _), h.nodup, fun r hr ↦ ?_, h.covered⟩
    obtain ⟨t, ht, hrest⟩ := h.owned r hr
    exact ⟨t, by rw [List.find?_append, ht, Option.some_or], hrest⟩
  | ownership t row ht horg hid hrow hhost =>
    refine ⟨fun r hr ↦ ?_, ?_, fun r hr ↦ ?_, fun record hrecord hstatus entry hentry ↦ ?_⟩
    · rcases List.mem_append.1 hr with hr | hr
      · exact (h.fresh r hr).trans (Nat.lt_succ_self _)
      · rw [List.mem_singleton.1 hr, hid]
        exact Nat.lt_succ_self _
    · rw [List.map_append, List.nodup_append]
      refine ⟨h.nodup, List.nodup_singleton _, fun a ha b hb hab ↦ ?_⟩
      obtain ⟨r, hr, rfl⟩ := List.mem_map.1 ha
      have hlt := h.fresh r hr
      have hb' : b = row.id := List.mem_singleton.1 hb
      rw [hab, hb', hid] at hlt
      exact lt_irrefl _ hlt
    · rcases List.mem_append.1 hr with hr | hr
      · exact h.owned r hr
      · rw [List.mem_singleton.1 hr, hrow.2, hrow.1]
        exact ⟨t, ht, horg, hhost⟩
    · exact (h.covered record hrecord hstatus entry hentry).mono fun r hr hv ↦
        ⟨r, List.mem_append_left _ hr, rfl, hv, rfl⟩
  | @outcome org_id target_id ownership_id probe base_url row result hrow htarget horg hresult =>
    have hmem := List.mem_of_find?_eq_some hrow
    have hkeep : ∀ r : OwnershipVerification,
        (if r.id = row.id then { r with status := result.status, detail := result.detail }
          else r).id = r.id := fun r ↦ by split <;> rfl
    refine ⟨fun r hr ↦ ?_, ?_, fun r hr ↦ ?_, fun record hrecord hstatus entry hentry ↦ ?_⟩
    · obtain ⟨r₀, hr₀, rfl⟩ := List.mem_map.1 hr
      rw [hkeep]
      exact h.fresh r₀ hr₀
    · rw [List.map_map]
      have hids : ((fun r : OwnershipVerification ↦ r.id) ∘ fun r ↦ if r.id = row.id then
          { r with status := result.status, detail := result.detail } else r) = (·.id) :=
        funext hkeep
      rw [hids]
      exact h.nodup
    · obtain ⟨r₀, hr₀, rfl⟩ := List.mem_map.1 hr
      obtain ⟨t, ht, hrest⟩ := h.owned r₀ hr₀
      refine ⟨t, ?_, ?_⟩ <;> split <;> first | exact ht | exact hrest
    · refine (h.covered record hrecord hstatus entry hentry).mono fun r hr hv ↦
        ⟨_, List.mem_map_of_mem hr, ?_⟩
      split
      next hid =>
        -- the row itself: it was verified, so its proof was found again
        obtain rfl := h.eq_of_id hr hmem hid
        exact ⟨rfl, verified_of_stillProven (hc r hrow htarget horg hv) hresult, rfl⟩
      next => exact ⟨rfl, hv, rfl⟩
  | @record org_id target_id body t host row ht horg hhost hrow hstatus hhosts =>
    refine ⟨h.fresh, h.nodup, h.owned, fun record hrecord hv entry hentry ↦ ?_⟩
    rcases List.mem_append.1 hrecord with hrecord | hrecord
    · exact h.covered record hrecord hv entry hentry
    · rw [List.mem_singleton.1 hrecord] at hv hentry ⊢
      have hown := recordStatus_verified (hstatus.symm.trans hv)
      obtain ⟨hplain, hlisted⟩ := hc t host ht horg hhost hown
      rw [hhosts, requestedHosts] at hentry
      rw [hrow]
      split at hentry
      next hnil =>
        rw [List.mem_singleton.1 hentry, ← horg]
        exact h.target_host ht hhost hown (hplain hnil)
      next => exact hlisted entry hentry

end TargetsStore

/-! ### Requests under a verified record -/

/-- A host the guard lets through belongs to an entry of its record: it is the host the entry is for,
or below it. -/
theorem host_of_host_in_scope {g : ScopeGuard} {host : Text} (h : g._host_in_scope host = true) :
    ∃ entry ∈ g.record.allowed_hosts, ∀ own, EntryFor (normalHost entry) own →
      host = own ∨ '.' :: own <:+ host := by
  have hmem : ∀ e ∈ g._allowed_hosts, ∃ entry ∈ g.record.allowed_hosts, normalHost entry = e := by
    intro e he
    obtain ⟨entry, hentry, rfl⟩ := List.mem_map.1 he
    exact ⟨entry, (List.mem_filter.1 hentry).1, rfl⟩
  rw [ScopeGuard._host_in_scope, Bool.or_eq_true, List.contains_iff_mem, List.any_eq_true] at h
  rcases h with hexact | ⟨e, he, hwild⟩
  · obtain ⟨entry, hentry, heq⟩ := hmem host hexact
    refine ⟨entry, hentry, fun own hfor ↦ ?_⟩
    rw [heq, EntryFor] at hfor
    split at hfor
    · rw [hfor.1]
      exact Or.inr ⟨['*'], rfl⟩
    · exact Or.inl hfor
  · obtain ⟨entry, hentry, rfl⟩ := hmem e he
    rw [Bool.and_eq_true] at hwild
    refine ⟨entry, hentry, fun own hfor ↦ ?_⟩
    rw [EntryFor, if_pos hwild.1] at hfor
    have hlit : Glob.IsLiteral ('.' :: own) :=
      List.forall_mem_cons.2 ⟨by decide, hfor.2⟩
    have hmatch := hwild.2
    rw [hfor.1] at hmatch
    exact Or.inr ((Glob.fnmatch_star_literal hlit).1 hmatch)

end

section

attribute [local instance] asciiTables

/-- A lab application on loopback, verified and authorized for its own host. -/
def labCalls : List TargetsStore.ApiCall := [
  .create_target 1 { name := "lab".toList, base_url := "http://127.0.0.1:8080/".toList },
  .start_ownership 1 0 {} [] ⟨none, .error ""⟩,
  .create_authorization 1 0 {} ]

/-- A proven host, and a record for somebody else's. -/
def victimCalls : List TargetsStore.ApiCall := [
  .create_target 1 { name := "app".toList, base_url := "https://app.example/".toList },
  .start_ownership 1 0 { method := "dns_txt" } "token".toList ⟨none, .error ""⟩,
  .verify_ownership 1 0 1
    ⟨some (.ok ["sentrik-site-verification=token".toList]), .error ""⟩,
  .create_authorization 1 0 { allowed_hosts := ["victim.example".toList] } ]

end

end Sentrik
