import Sentrik.Api.Triage
import Sentrik.Library.UnitOfWork

/-!
# One row for each key of the project memory

The memory is keyed by organization, target and key, and the table has no constraint that says so. An upsert
looks the key up and writes what it found, or a new row; a rejection adds a row without looking. Between the
look and the write of one upsert any other call can commit.

`one_row_iff` says exactly which runs keep one row for each key, in every state they reach: those that never
insert under a key that has a row.
-/

namespace Sentrik

/-- What a row is found by. -/
def ProjectMemory.rowKey (r : ProjectMemory) : ℕ × Option ℕ × Text := (r.org_id, r.target_id, r.key)

/-- An upsert that has looked its key up: its caller and body, and the row it loaded. -/
structure PendingUpsert where
  principal : Principal
  target_id : Option ℕ
  key : Text
  kind : Option Text
  existing : Option ProjectMemory

/-- What an upsert writes under. -/
def PendingUpsert.rowKey (b : PendingUpsert) : ℕ × Option ℕ × Text := (b.principal.org_id, b.target_id, b.key)

/-- The tables, and the upserts between their select and their commit. -/
structure MemoryDesk where
  tables : Workspace := {}
  pending : List PendingUpsert := []

inductive MemoryEvent
  /-- A call that nothing comes between. -/
  | call (e : WorkspaceEvent)
  /-- An upsert looks its key up. -/
  | select (principal : Principal) (target_id : Option ℕ) (key : Text) (kind : Option Text)
  /-- A suspended upsert commits. -/
  | commit (i : ℕ)

namespace MemoryDesk

/-- `PUT /v1/memory`, up to its select: more than one row raises. -/
def select (d : MemoryDesk) (principal : Principal) (target_id : Option ℕ) (key : Text)
    (kind : Option Text) : Except HTTPException MemoryDesk := do
  principal.require_role .OPERATOR
  if key = [] then throw { status_code := 422, detail := "'key' is required" }
  match d.tables.memory.filter (Workspace.rowsFor principal.org_id target_id key) with
  | [] => return { d with pending := d.pending ++ [⟨principal, target_id, key, kind, none⟩] }
  | [existing] =>
    return { d with pending := d.pending ++ [⟨principal, target_id, key, kind, some existing⟩] }
  | _ => throw { status_code := 500, detail := "Internal Server Error" }

/-- What the commit of an upsert writes: a new row, or the kind of the row it loaded. -/
def write (w : Workspace) (b : PendingUpsert) : Workspace :=
  match b.existing with
  | none =>
    { w with
      memory := w.memory ++ [{
        id := w.nextId
        org_id := b.principal.org_id
        target_id := b.target_id
        key := b.key
        kind := b.kind.getD "note".toList }]
      nextId := w.nextId + 1 }
  | some existing =>
    { w with memory := w.memory.map fun r ↦
        if r.id = existing.id then
          { r with kind := UnitOfWork.commit existing.kind (b.kind.getD existing.kind) r.kind }
        else r }

section

variable [u : UnicodeTables]

/-- A call that is refused leaves no state. -/
def step (d : MemoryDesk) : MemoryEvent → Option MemoryDesk
  | .call e => (d.tables.step e).map fun w ↦ { d with tables := w }
  | .select principal target_id key kind => (d.select principal target_id key kind).toOption
  | .commit i => d.pending[i]?.map fun b ↦ { tables := write d.tables b, pending := d.pending.eraseIdx i }

/-! ### The property -/

omit u in
/-- **One row for each key.** -/
def OneRow (w : Workspace) : Prop := (w.memory.map ProjectMemory.rowKey).Nodup

omit u in
instance (w : Workspace) : Decidable (OneRow w) := inferInstanceAs (Decidable (List.Nodup _))

omit u in
/-- One row for each key, and no upsert finds more than one. -/
def Keyed (w : Workspace) : Prop :=
  OneRow w ∧ ∀ principal target_id key kind e,
    w.upsert_memory principal target_id key kind = .error e → e.status_code ≠ 500

/-- **The condition on a step**: a rejection is recorded, and a commit inserts, only under a key that has no
row. -/
def Heeds (d : MemoryDesk) : MemoryEvent → Prop
  | .call (.triage _ assessment_id finding_id status) =>
    Workspace.triageStatus status = some .REJECTED →
      ∀ a ∈ d.tables.assessments.find? (·.id = assessment_id),
        ∀ f ∈ d.tables.findings.find? (·.id = finding_id),
          (a.org_id, some a.target_id, KNOWN_FP ++ f.dedup_key) ∉ d.tables.memory.map ProjectMemory.rowKey
  | .commit i => ∀ b ∈ d.pending[i]?, b.existing = none →
      b.rowKey ∉ d.tables.memory.map ProjectMemory.rowKey
  | _ => True

instance (d : MemoryDesk) (e : MemoryEvent) : Decidable (d.Heeds e) :=
  match e with
  | .call (.triage ..) =>
    inferInstanceAs (Decidable (_ → ∀ a ∈ d.tables.assessments.find? _, ∀ f ∈ d.tables.findings.find? _, _))
  | .commit i => inferInstanceAs (Decidable (∀ b ∈ d.pending[i]?, _ → _))
  | .select .. => isTrue trivial
  | .call (.create ..) | .call (.score _) | .call (.persist ..) | .call (.validated ..)
  | .call (.restart _) | .call (.upsert_memory ..) | .call (.delete_memory ..) => isTrue trivial

/-! ### Rows and keys -/

section

variable {w w' : Workspace} {d d' : MemoryDesk}

omit u in
theorem rowsFor_iff {r : ProjectMemory} {org_id : ℕ} {target_id : Option ℕ} {key : Text} :
    Workspace.rowsFor org_id target_id key r = true ↔ r.rowKey = (org_id, target_id, key) := by
  rw [Workspace.rowsFor, decide_eq_true_eq, ProjectMemory.rowKey, Prod.mk.injEq, Prod.mk.injEq]

omit u in
/-- Under one row for each key a lookup finds at most one. -/
theorem filter_of_oneRow (h : OneRow w) (org_id : ℕ) (target_id : Option ℕ) (key : Text) :
    w.memory.filter (Workspace.rowsFor org_id target_id key) = [] ∨
      ∃ r, w.memory.filter (Workspace.rowsFor org_id target_id key) = [r] := by
  have hnodup : ((w.memory.filter (Workspace.rowsFor org_id target_id key)).map
      ProjectMemory.rowKey).Nodup := h.sublist (List.filter_sublist.map _)
  have hkeys : ∀ r ∈ w.memory.filter (Workspace.rowsFor org_id target_id key),
      r.rowKey = (org_id, target_id, key) := fun r hr ↦ rowsFor_iff.1 (List.mem_filter.1 hr).2
  generalize w.memory.filter (Workspace.rowsFor org_id target_id key) = rows at hnodup hkeys ⊢
  match rows with
  | [] => exact Or.inl rfl
  | [r] => exact Or.inr ⟨r, rfl⟩
  | r :: s :: rest =>
    -- two rows of the lookup have the same key
    have hr := hkeys r List.mem_cons_self
    have hs := hkeys s (List.mem_cons_of_mem _ List.mem_cons_self)
    rw [List.map_cons, List.map_cons, hr, hs] at hnodup
    exact absurd List.mem_cons_self (List.nodup_cons.1 hnodup).1

omit u in
/-- Then no upsert fails on its key. -/
theorem keyed_iff : Keyed w ↔ OneRow w := by
  refine and_iff_left_of_imp fun h principal target_id key kind e he ↦ ?_
  rw [Workspace.upsert_memory] at he
  cases hrole : principal.require_role .OPERATOR with
  | error e' =>
    rw [hrole] at he
    obtain rfl := Except.error.inj he
    rw [Principal.require_role] at hrole
    split at hrole
    · obtain rfl := Except.error.inj hrole
      show (403 : ℕ) ≠ 500
      decide
    · cases hrole
  | ok x =>
    rw [hrole] at he
    by_cases hkey : key = []
    · rw [if_pos hkey] at he
      obtain rfl := Except.error.inj he
      show (422 : ℕ) ≠ 500
      decide
    rw [if_neg hkey] at he
    rcases filter_of_oneRow h principal.org_id target_id key with hrows | ⟨r, hrows⟩
    · rw [hrows] at he
      cases he
    · rw [hrows] at he
      cases he

omit u in
instance (w : Workspace) : Decidable (Keyed w) := decidable_of_iff _ keyed_iff.symm

omit u in
/-- A row is added under a key that has none. -/
theorem oneRow_append {r : ProjectMemory} (h : OneRow w) (hmemory : w'.memory = w.memory ++ [r]) :
    OneRow w' ↔ r.rowKey ∉ w.memory.map ProjectMemory.rowKey := by
  rw [OneRow, hmemory, List.map_append, List.map_singleton, List.nodup_append]
  constructor
  · rintro ⟨-, -, hdisjoint⟩ hmem
    exact hdisjoint _ hmem _ (List.mem_singleton_self _) rfl
  · intro hnot
    refine ⟨h, List.nodup_singleton _, fun a ha b hb ↦ ?_⟩
    rw [List.mem_singleton.1 hb]
    rintro rfl
    exact hnot ha

omit u in
theorem oneRow_of_keys (h : w'.memory.map ProjectMemory.rowKey = w.memory.map ProjectMemory.rowKey) :
    OneRow w' ↔ OneRow w := by rw [OneRow, OneRow, h]

omit u in
/-- Writing fields that are no part of a key. -/
theorem map_rowKey {f : ProjectMemory → ProjectMemory} (h : ∀ r, (f r).rowKey = r.rowKey)
    (rows : List ProjectMemory) :
    (rows.map f).map ProjectMemory.rowKey = rows.map ProjectMemory.rowKey := by
  rw [List.map_map]
  exact List.map_congr_left fun r _ ↦ h r

omit u in
/-- An atomic upsert keeps one row for each key. -/
theorem oneRow_of_upsert {principal : Principal} {target_id : Option ℕ} {key : Text} {kind : Option Text}
    (h : OneRow w) (hupsert : w.upsert_memory principal target_id key kind = .ok w') : OneRow w' := by
  rw [Workspace.upsert_memory] at hupsert
  cases hrole : principal.require_role .OPERATOR with
  | error e =>
    rw [hrole] at hupsert
    cases hupsert
  | ok x =>
    rw [hrole] at hupsert
    by_cases hkey : key = []
    · rw [if_pos hkey] at hupsert
      cases hupsert
    rw [if_neg hkey] at hupsert
    rcases filter_of_oneRow h principal.org_id target_id key with hrows | ⟨r, hrows⟩
    · rw [hrows] at hupsert
      obtain rfl := Except.ok.inj hupsert
      refine (oneRow_append h rfl).2 fun hmem ↦ ?_
      obtain ⟨r, hr, heq⟩ := List.mem_map.1 hmem
      have hfound := List.mem_filter.2 ⟨hr, rowsFor_iff.2 heq⟩
      rw [hrows] at hfound
      exact absurd hfound List.not_mem_nil
    · rw [hrows] at hupsert
      obtain rfl := Except.ok.inj hupsert
      refine (oneRow_of_keys (map_rowKey (fun r ↦ ?_) w.memory)).2 h
      split <;> rfl

omit u in
/-- The commit of an upsert inserts under a key without a row, or leaves the keys as they are. -/
theorem oneRow_write {b : PendingUpsert} (h : OneRow w) :
    OneRow (write w b) ↔ (b.existing = none → b.rowKey ∉ w.memory.map ProjectMemory.rowKey) := by
  cases hexisting : b.existing with
  | none =>
    have hmemory : (write w b).memory = w.memory ++ [{
        id := w.nextId
        org_id := b.principal.org_id
        target_id := b.target_id
        key := b.key
        kind := b.kind.getD "note".toList }] := by rw [write, hexisting]
    rw [oneRow_append h hmemory]
    exact ⟨fun hfree _ ↦ hfree, fun hfree ↦ hfree rfl⟩
  | some existing =>
    have hkeys : (write w b).memory.map ProjectMemory.rowKey = w.memory.map ProjectMemory.rowKey := by
      rw [write, hexisting]
      refine map_rowKey (fun r ↦ ?_) w.memory
      split <;> rfl
    exact iff_of_true ((oneRow_of_keys hkeys).2 h) nofun

omit u in
/-- The select of an upsert writes nothing. -/
theorem select_tables {principal : Principal} {target_id : Option ℕ} {key : Text} {kind : Option Text}
    (h : d.select principal target_id key kind = .ok d') : d'.tables = d.tables := by
  rw [select] at h
  cases hrole : principal.require_role .OPERATOR with
  | error e =>
    rw [hrole] at h
    cases h
  | ok x =>
    rw [hrole] at h
    by_cases hkey : key = []
    · rw [if_pos hkey] at h
      cases h
    rw [if_neg hkey] at h
    match hrows : d.tables.memory.filter (Workspace.rowsFor principal.org_id target_id key) with
    | [] | [_] =>
      rw [hrows] at h
      rw [← Except.ok.inj h]
    | _ :: _ :: _ =>
      rw [hrows] at h
      cases h

/-- A triage call inserts if it rejects. -/
theorem oneRow_triage {principal : Principal} {assessment_id finding_id : ℕ} {status : Text}
    (h : OneRow w) (hstep : w.step (.triage principal assessment_id finding_id status) = some w') :
    OneRow w' ↔ (Workspace.triageStatus status = some .REJECTED →
      ∀ a ∈ w.assessments.find? (·.id = assessment_id), ∀ f ∈ w.findings.find? (·.id = finding_id),
        (a.org_id, some a.target_id, KNOWN_FP ++ f.dedup_key) ∉ w.memory.map ProjectMemory.rowKey) := by
  obtain ⟨a, f, new_status, hT⟩ := Workspace.triaged_of_step hstep
  rw [hT.status, hT.assessment, hT.finding]
  by_cases hrejected : new_status = .REJECTED
  · have hmemory : w'.memory = (w.remember (f.markKey a)).memory := by
      rw [hT.after, if_pos hrejected]
      rfl
    rw [oneRow_append h hmemory]
    constructor
    · rintro hfree - _ ⟨⟩ _ ⟨⟩
      exact hfree
    · exact fun hfree ↦ hfree (congrArg some hrejected) a rfl f rfl
  · -- what is no rejection leaves the memory as it is
    have hmemory : w'.memory = w.memory := by
      rw [hT.after, if_neg hrejected]
      rfl
    have hkeys : w'.memory.map ProjectMemory.rowKey = w.memory.map ProjectMemory.rowKey := by rw [hmemory]
    exact iff_of_true ((oneRow_of_keys hkeys).2 h) fun heq ↦ absurd (Option.some.inj heq) hrejected

/-- A call that is no triage keeps one row for each key. -/
theorem oneRow_call {e : WorkspaceEvent}
    (he : ∀ principal assessment_id finding_id status,
      e ≠ .triage principal assessment_id finding_id status)
    (h : OneRow w) (hstep : w.step e = some w') : OneRow w' := by
  have hsame : w'.memory = w.memory → OneRow w' := fun hmemory ↦ by rwa [OneRow, hmemory]
  cases e with
  | create => exact hsame (Option.some.inj hstep ▸ rfl)
  | triage principal assessment_id finding_id status => exact (he _ _ _ _ rfl).elim
  | score assessment_id =>
    refine hsame ?_
    rw [← Option.some.inj hstep, Workspace._apply_known_false_positives]
    split <;> rfl
  | persist =>
    refine hsame ?_
    rw [← Option.some.inj hstep, Workspace._persist_finding]
    split <;> rfl
  | validated => exact hsame (Option.some.inj hstep ▸ rfl)
  | restart => exact hsame (Option.some.inj hstep ▸ rfl)
  | upsert_memory => exact oneRow_of_upsert h (Workspace.ok_of_toOption hstep)
  | delete_memory principal memory_id =>
    have hsub := (Workspace.memory_of_delete (Workspace.ok_of_toOption hstep)).2
    exact h.sublist (hsub.map _)

/-- **What one step does.** -/
theorem oneRow_step {e : MemoryEvent} (h : OneRow d.tables) (hstep : d.step e = some d') :
    OneRow d'.tables ↔ d.Heeds e := by
  cases e with
  | select principal target_id key kind =>
    have hsame : d'.tables = d.tables := select_tables (Workspace.ok_of_toOption hstep)
    rw [hsame]
    exact iff_of_true h trivial
  | commit i =>
    obtain ⟨b, hb, rfl⟩ := Option.map_eq_some_iff.1 hstep
    rw [Heeds, hb, oneRow_write h]
    constructor
    · rintro hfree _ ⟨⟩
      exact hfree
    · exact fun hfree ↦ hfree b rfl
  | call e =>
    obtain ⟨w, hw, rfl⟩ := Option.map_eq_some_iff.1 hstep
    by_cases he : ∃ principal assessment_id finding_id status,
        e = .triage principal assessment_id finding_id status
    · obtain ⟨principal, assessment_id, finding_id, status, rfl⟩ := he
      exact oneRow_triage h hw
    · have hne : ∀ principal assessment_id finding_id status,
          e ≠ .triage principal assessment_id finding_id status :=
        fun principal assessment_id finding_id status heq ↦ he ⟨_, _, _, _, heq⟩
      refine iff_of_true (oneRow_call hne h hw) ?_
      cases e with
      | triage => exact (hne _ _ _ _ rfl).elim
      | _ => trivial

end

/-- **Which runs keep one row for each key**: in every state they reach there is one, and no upsert fails,
exactly if all their steps heed the keys. -/
theorem one_row_iff {d : MemoryDesk} {es : List MemoryEvent} (h : Machine.run step {} es = some d) :
    (∀ es' d', es' <+: es → Machine.run step {} es' = some d' → Keyed d'.tables) ↔
      Machine.Along step Heeds {} es := by
  refine Machine.always_iff_along (fun hkeyed hstep ↦ ?_) h (keyed_iff.2 List.nodup_nil)
  rw [keyed_iff]
  exact oneRow_step (keyed_iff.1 hkeyed) hstep

end

section

attribute [local instance] asciiTables

/-- A finding is stored and triaged, and then a key is upserted by two calls. -/
def memoryRun (statuses : List String) (key : String) : List MemoryEvent :=
  (Workspace.triageRun statuses).map .call ++
    [.select Workspace.analyst (some 1) key.toList none, .commit 0,
      .call (.upsert_memory Workspace.analyst (some 1) key.toList none)]

/-- A rejection and two upserts of another key: every step heeds the keys. -/
theorem one_row_iff_rejected : ∃ d, Machine.run step {} (memoryRun ["rejected"] "note") = some d ∧
    ∀ es' d', es' <+: memoryRun ["rejected"] "note" → Machine.run step {} es' = some d' →
      Keyed d'.tables := by
  have hA : Machine.Along step Heeds {} (memoryRun ["rejected"] "note") := by decide
  exact ⟨_, rfl, (one_row_iff rfl).2 hA⟩

/-- A finding that is rejected twice has two rows, and an upsert of their key fails. -/
theorem two_rows :
    ∃ d, Machine.run step {} ((Workspace.triageRun ["rejected", "rejected"]).map .call) = some d ∧
      ¬Keyed d.tables ∧ (d.tables.memory.filter
        (Workspace.rowsFor 1 (some 1) "known_fp:k".toList)).length = 2 ∧
      (d.tables.upsert_memory Workspace.analyst (some 1) "known_fp:k".toList none).toOption.isNone := by
  decide

end

end MemoryDesk

end Sentrik
