import Sentrik.Library.UnitOfWork
import Sentrik.Api.Triage

/-!
# Triage during validation

The validation phase reads the list of suspected findings once, validates them one after the other over
the network, and writes each outcome back in a session of its own. Operators triage the same findings
meanwhile: a triage call loads its finding and commits some time later.

Both write back in the same way (`UnitOfWork.commit`): a status that differs from the one the **session**
loaded is written, whatever is stored by then. The decisions committed since the phase read its list are
noted in `decided`, the latest first; nothing but the specification reads them.
-/

namespace Sentrik

/-- A triage call that has loaded its finding. -/
structure TriageCall where
  finding_id : ℕ
  status : FindingStatus
  loaded : FindingStatus
  committed : Bool := false
  deriving DecidableEq, Repr

inductive ValidatePc
  | waiting
  /-- The findings of the list that are still to be validated. -/
  | walking (left : List ℕ)
  /-- A finding is validated; its row is loaded next. -/
  | validated (id : ℕ) (outcome : FindingStatus) (left : List ℕ)
  | loaded (id : ℕ) (outcome loaded : FindingStatus) (left : List ℕ)
  | over
  deriving DecidableEq, Repr

/-- The findings of one assessment, a validation phase, and the triage calls on them. -/
structure Review where
  findings : List Finding
  pc : ValidatePc := .waiting
  calls : List TriageCall := []
  decided : List (ℕ × FindingStatus) := []
  deriving DecidableEq, Repr

inductive ReviewEvent
  | read
  /-- The phase notices that it was cancelled, or has come to the end of its list. -/
  | leave
  /-- The outcome of the next finding, or an error of its validator. -/
  | validate (outcome : Option FindingStatus)
  | load
  | write
  | raise
  | open_triage (finding_id : ℕ) (status : FindingStatus)
  | commit_triage (k : ℕ)
  deriving DecidableEq, Repr

namespace Review

/-- The stored status of a finding. -/
def statusOf (r : Review) (id : ℕ) : Option FindingStatus :=
  (r.findings.find? (·.id = id)).map (·.status)

/-- The commit of a session that loaded a finding and assigned a status. -/
def writeStatus (r : Review) (id : ℕ) (loaded assigned : FindingStatus) : Review :=
  { r with findings := r.findings.map fun f ↦
      if f.id = id then { f with status := UnitOfWork.commit loaded assigned f.status } else f }

/-- The phase reads the findings that are suspected. -/
def suspected (r : Review) : List ℕ := (r.findings.filter (·.status = .SUSPECTED)).map (·.id)

def step (r : Review) : ReviewEvent → Option Review
  | .read => if r.pc = .waiting then some { r with pc := .walking r.suspected } else none
  | .leave =>
    match r.pc with
    | .walking _ => some { r with pc := .over }
    | _ => none
  | .validate outcome =>
    match r.pc with
    | .walking (id :: left) =>
      some { r with pc := .validated id (outcome.getD .INCONCLUSIVE) left }
    | _ => none
  | .load =>
    match r.pc with
    | .validated id outcome left =>
      match r.statusOf id with
      | some loaded => some { r with pc := .loaded id outcome loaded left }
      | none => some { r with pc := .over }
    | _ => none
  | .write =>
    match r.pc with
    | .loaded id outcome loaded left =>
      some { r.writeStatus id loaded outcome with pc := .walking left }
    | _ => none
  | .raise => if r.pc = .waiting ∨ r.pc = .over then none else some { r with pc := .over }
  | .open_triage finding_id status =>
    if status ∈ TRIAGE_STATUSES then
      (r.statusOf finding_id).map fun loaded ↦
        { r with calls := r.calls ++ [{ finding_id, status, loaded }] }
    else none
  | .commit_triage k =>
    match r.calls[k]? with
    | some c =>
      if c.committed then none
      else
        some { r.writeStatus c.finding_id c.loaded c.status with
          calls := r.calls.set k { c with committed := true }
          decided := if r.pc = .waiting then r.decided else (c.finding_id, c.status) :: r.decided }
    | none => none

/-- **No lost triage update**: every finding that was decided since the phase read its list has the status
that was decided last. -/
def NoLostTriage (r : Review) : Prop :=
  ∀ f ∈ r.findings, ∀ status ∈ r.decided.lookup f.id, f.status = status

instance (r : Review) : Decidable r.NoLostTriage :=
  inferInstanceAs (Decidable (∀ f ∈ r.findings, _))

/-- **The condition on a step.** The phase writes a finding that has not been decided since it read its
list, or an outcome that is the decided status or the one its session has loaded; a triage call commits a
status that is not the one its session loaded, or that the finding has. -/
def Fresh (r : Review) : ReviewEvent → Prop
  | .write =>
    match r.pc with
    | .loaded id outcome loaded _ =>
      ∀ status ∈ r.decided.lookup id, outcome = loaded ∨ outcome = status
    | _ => True
  | .commit_triage k =>
    ∀ c ∈ r.calls[k]?, r.pc = .waiting ∨ c.status ≠ c.loaded ∨ r.statusOf c.finding_id = some c.status
  | _ => True

instance (r : Review) (e : ReviewEvent) : Decidable (r.Fresh e) := by
  unfold Fresh
  split
  · split <;> infer_instance
  · infer_instance
  · infer_instance

/-! ### The rows -/

/-- The ids of the findings. -/
def ids (r : Review) : List ℕ := r.findings.map (·.id)

@[simp] theorem ids_writeStatus (r : Review) (id : ℕ) (loaded assigned : FindingStatus) :
    (r.writeStatus id loaded assigned).ids = r.ids := by
  rw [ids, writeStatus, List.map_map, ids]
  refine List.map_congr_left fun f _ ↦ ?_
  show (if f.id = id then _ else f : Finding).id = f.id
  split <;> rfl

theorem statusOf_isSome {r : Review} {id : ℕ} {status : FindingStatus}
    (h : r.statusOf id = some status) : id ∈ r.ids := by
  obtain ⟨f, hf, -⟩ := Option.map_eq_some_iff.1 h
  have hid : f.id = id := by simpa using List.find?_some hf
  exact List.mem_map.2 ⟨f, List.mem_of_find?_eq_some hf, hid⟩

/-- With ids that are unique, a row is the one its id finds. -/
theorem statusOf_eq {r : Review} (hids : r.ids.Nodup) {f : Finding} (hf : f ∈ r.findings) :
    r.statusOf f.id = some f.status := by
  rw [statusOf]
  cases hfind : r.findings.find? (·.id = f.id) with
  | none => exact absurd (decide_eq_true rfl) (List.find?_eq_none.1 hfind f hf)
  | some g =>
    have hid : g.id = f.id := by simpa using List.find?_some hfind
    rw [List.inj_on_of_nodup_map hids (List.mem_of_find?_eq_some hfind) hf hid]
    rfl

/-- The status of a row after a commit. -/
theorem status_writeStatus {r : Review} {id : ℕ} {loaded assigned : FindingStatus} {f' : Finding}
    (hf' : f' ∈ (r.writeStatus id loaded assigned).findings) :
    ∃ f ∈ r.findings, f.id = f'.id ∧
      f'.status = if f.id = id then UnitOfWork.commit loaded assigned f.status else f.status := by
  obtain ⟨f, hf, rfl⟩ := List.mem_map.1 hf'
  refine ⟨f, hf, ?_⟩
  split <;> exact ⟨rfl, rfl⟩

/-- And every row is there after it. -/
theorem exists_writeStatus {r : Review} {id : ℕ} {loaded assigned : FindingStatus} {f : Finding}
    (hf : f ∈ r.findings) : ∃ f' ∈ (r.writeStatus id loaded assigned).findings, f'.id = f.id ∧
      f'.status = if f.id = id then UnitOfWork.commit loaded assigned f.status else f.status := by
  refine ⟨_, List.mem_map.2 ⟨f, hf, rfl⟩, ?_⟩
  split <;> exact ⟨rfl, rfl⟩

/-! ### The invariant -/

/-- Rows have unique ids, sessions have loaded rows that are there, and nothing is decided since the list
was read before it is read. -/
structure WellFormed (r : Review) : Prop where
  nodup : r.ids.Nodup
  loaded : ∀ id outcome loaded left, r.pc = .loaded id outcome loaded left → id ∈ r.ids
  calls : ∀ c ∈ r.calls, c.finding_id ∈ r.ids
  waiting : r.pc = .waiting → r.decided = []

/-- Before the phase begins. -/
theorem WellFormed.start {findings : List Finding} (hids : (findings.map (·.id)).Nodup) :
    ({ findings } : Review).WellFormed where
  nodup := hids
  loaded _ _ _ _ hpc := by cases hpc
  calls _ hc := by cases hc
  waiting _ := rfl

/-- The phase goes on, and has loaded no row that is not there. -/
theorem WellFormed.of_pc {r : Review} (hW : r.WellFormed) {pc : ValidatePc} (hwaiting : pc ≠ .waiting)
    (hloaded : ∀ id outcome loaded left, pc = .loaded id outcome loaded left → id ∈ r.ids) :
    ({ r with pc } : Review).WellFormed where
  nodup := hW.nodup
  loaded := hloaded
  calls := hW.calls
  waiting h := absurd h hwaiting

theorem WellFormed.write {r : Review} (hW : r.WellFormed) (id : ℕ) (loaded assigned : FindingStatus) :
    (r.writeStatus id loaded assigned).WellFormed where
  nodup := by rw [ids_writeStatus]; exact hW.nodup
  loaded := by rw [ids_writeStatus]; exact hW.loaded
  calls := by rw [ids_writeStatus]; exact hW.calls
  waiting := hW.waiting

/-- The phase writes the row it has loaded. -/
theorem write_cases {r r' : Review} (h : step r .write = some r') :
    ∃ id outcome loaded left, r.pc = .loaded id outcome loaded left ∧
      r' = { r.writeStatus id loaded outcome with pc := .walking left } := by
  rw [step] at h
  split at h
  next id outcome loaded left hpc =>
    exact ⟨id, outcome, loaded, left, hpc, (Option.some.inj h).symm⟩
  next => cases h

theorem WellFormed.of_step {r r' : Review} {e : ReviewEvent} (hW : r.WellFormed)
    (h : step r e = some r') : r'.WellFormed := by
  cases e with
  | read =>
    rw [step] at h
    split at h
    · exact Option.some.inj h ▸ hW.of_pc (by simp) (by simp)
    · cases h
  | leave =>
    rw [step] at h
    split at h
    · exact Option.some.inj h ▸ hW.of_pc (by simp) (by simp)
    · cases h
  | validate outcome =>
    rw [step] at h
    split at h
    · exact Option.some.inj h ▸ hW.of_pc (by simp) (by simp)
    · cases h
  | load =>
    rw [step] at h
    split at h
    next id outcome left hpc =>
      split at h
      next loaded hstatus =>
        refine Option.some.inj h ▸ hW.of_pc (by simp) fun id' outcome' loaded' left' heq ↦ ?_
        obtain ⟨rfl, -, -, -⟩ := ValidatePc.loaded.inj heq
        exact statusOf_isSome hstatus
      next => exact Option.some.inj h ▸ hW.of_pc (by simp) (by simp)
    next => cases h
  | write =>
    obtain ⟨id, outcome, loaded, left, -, rfl⟩ := write_cases h
    exact (hW.write id loaded outcome).of_pc (by simp) (by simp)
  | raise =>
    rw [step] at h
    split at h
    · cases h
    · exact Option.some.inj h ▸ hW.of_pc (by simp) (by simp)
  | open_triage finding_id status =>
    rw [step] at h
    split at h
    next =>
      obtain ⟨loaded, hloaded, rfl⟩ := Option.map_eq_some_iff.1 h
      refine ⟨hW.nodup, hW.loaded, fun c hc ↦ ?_, hW.waiting⟩
      rcases List.mem_append.1 hc with hc | hc
      · exact hW.calls c hc
      · rw [List.mem_singleton.1 hc]
        exact statusOf_isSome hloaded
    next => cases h
  | commit_triage k =>
    rw [step] at h
    split at h
    next c hc =>
      split at h
      · cases h
      · have hwrite := hW.write c.finding_id c.loaded c.status
        rw [← Option.some.inj h]
        refine ⟨hwrite.nodup, hwrite.loaded, fun c' hc' ↦ ?_, fun hpc ↦ ?_⟩
        · rcases List.mem_or_eq_of_mem_set hc' with hc' | rfl
          · exact hwrite.calls c' hc'
          · exact hwrite.calls c (List.mem_of_getElem? hc)
        · exact (if_pos hpc).trans (hW.waiting hpc)
    next => cases h

/-! ### One step -/

/-- The phase writes an outcome: when the decisions are still what is stored. -/
theorem noLost_writeStatus {r : Review} (hN : r.NoLostTriage) {id : ℕ} (hid : id ∈ r.ids)
    {loaded assigned : FindingStatus} :
    (r.writeStatus id loaded assigned).NoLostTriage ↔
      ∀ status ∈ r.decided.lookup id, assigned = loaded ∨ assigned = status := by
  constructor
  · intro hN' status hstatus
    obtain ⟨f, hf, rfl⟩ := List.mem_map.1 hid
    obtain ⟨f', hf', hid', hstatus'⟩ :
        ∃ f' ∈ (r.writeStatus f.id loaded assigned).findings, f'.id = f.id ∧ _ := exists_writeStatus hf
    have hnow : f'.status = status := hN' f' hf' status (hid' ▸ hstatus)
    rw [if_pos rfl, hN f hf status hstatus] at hstatus'
    exact UnitOfWork.commit_eq_stored_iff.1 (hstatus'.symm.trans hnow)
  · intro hfresh f' hf' status hstatus
    obtain ⟨f, hf, hid', hstatus'⟩ := status_writeStatus hf'
    have hbefore : f.status = status := hN f hf status (hid' ▸ hstatus)
    rw [hstatus', hbefore]
    split
    next heq =>
      exact UnitOfWork.commit_eq_stored_iff.2 (hfresh status (heq ▸ hid' ▸ hstatus))
    next => rfl

/-- A triage call commits: when its decision is what is stored. -/
theorem noLost_decide {r : Review} (hW : r.WellFormed) (hN : r.NoLostTriage) {c : TriageCall}
    (hid : c.finding_id ∈ r.ids) {calls : List TriageCall} :
    ({ r.writeStatus c.finding_id c.loaded c.status with
        calls, decided := (c.finding_id, c.status) :: r.decided } : Review).NoLostTriage ↔
      c.status ≠ c.loaded ∨ r.statusOf c.finding_id = some c.status := by
  have hstored : ∀ f ∈ r.findings, f.id = c.finding_id →
      (f.status = c.status ↔ r.statusOf c.finding_id = some c.status) := by
    intro f hf heq
    rw [← heq, statusOf_eq hW.nodup hf, Option.some.injEq]
  constructor
  · intro hN'
    obtain ⟨f, hf, heq⟩ := List.mem_map.1 hid
    obtain ⟨f', hf', hid', hstatus'⟩ := exists_writeStatus (r := r) hf
    have hnow : f'.status = c.status := hN' f' hf' c.status (by
      rw [hid', heq]
      exact List.lookup_cons_self)
    rw [if_pos heq, hnow] at hstatus'
    rw [← hstored f hf heq]
    exact UnitOfWork.commit_eq_assigned_iff.1 hstatus'.symm
  · intro hfresh f' hf' status hstatus
    obtain ⟨f, hf, hid', hstatus'⟩ := status_writeStatus hf'
    have hlookup : ((c.finding_id, c.status) :: r.decided).lookup f'.id = some status := hstatus
    rw [List.lookup_cons] at hlookup
    rw [hstatus']
    by_cases heq : f.id = c.finding_id
    · rw [← hid', heq, BEq.rfl] at hlookup
      rw [if_pos heq, ← Option.some.inj hlookup]
      exact UnitOfWork.commit_eq_assigned_iff.2 (hfresh.imp_right (hstored f hf heq).2)
    · rw [← hid', beq_eq_false_iff_ne.2 heq] at hlookup
      rw [if_neg heq]
      exact hN f hf status hlookup

/-- **The step lemma.** After a step no decision is lost exactly if the step meets the condition. -/
theorem noLostTriage_step_iff {r r' : Review} {e : ReviewEvent} (hW : r.WellFormed)
    (hN : r.NoLostTriage) (h : step r e = some r') : r'.NoLostTriage ↔ r.Fresh e := by
  have hsame : ∀ {r₁ : Review}, r₁.findings = r.findings → r₁.decided = r.decided →
      (r₁.NoLostTriage ↔ True) := by
    intro r₁ hfindings hdecided
    rw [NoLostTriage, hfindings, hdecided]
    exact iff_true_intro hN
  cases e with
  | read =>
    rw [step] at h
    split at h
    · exact Option.some.inj h ▸ hsame rfl rfl
    · cases h
  | leave =>
    rw [step] at h
    split at h
    · exact Option.some.inj h ▸ hsame rfl rfl
    · cases h
  | validate outcome =>
    rw [step] at h
    split at h
    · exact Option.some.inj h ▸ hsame rfl rfl
    · cases h
  | load =>
    rw [step] at h
    split at h
    · split at h <;> exact Option.some.inj h ▸ hsame rfl rfl
    · cases h
  | write =>
    obtain ⟨id, outcome, loaded, left, hpc, rfl⟩ := write_cases h
    rw [Fresh, hpc]
    exact noLost_writeStatus hN (hW.loaded _ _ _ _ hpc)
  | raise =>
    rw [step] at h
    split at h
    · cases h
    · exact Option.some.inj h ▸ hsame rfl rfl
  | open_triage finding_id status =>
    rw [step] at h
    split at h
    · obtain ⟨loaded, -, rfl⟩ := Option.map_eq_some_iff.1 h
      exact hsame rfl rfl
    · cases h
  | commit_triage k =>
    rw [step] at h
    rw [Fresh]
    split at h
    next c hc =>
      have hforall : (∀ c' ∈ r.calls[k]?, r.pc = .waiting ∨ c'.status ≠ c'.loaded ∨
          r.statusOf c'.finding_id = some c'.status) ↔
          r.pc = .waiting ∨ c.status ≠ c.loaded ∨ r.statusOf c.finding_id = some c.status := by
        rw [hc]
        simp
      rw [hforall]
      split at h
      · cases h
      rw [← Option.some.inj h]
      by_cases hpc : r.pc = .waiting
      · -- the list is not read yet, and nothing counts as decided
        rw [if_pos hpc, hW.waiting hpc]
        exact iff_of_true (fun f _ status hstatus ↦ by cases hstatus) (Or.inl hpc)
      · rw [if_neg hpc, noLost_decide hW hN (hW.calls c (List.mem_of_getElem? hc))]
        exact (or_iff_right hpc).symm
    next => cases h

/-- **No lost triage update.** In every run whose steps meet the condition, no decision is lost; and none is
lost by one more step exactly if that step meets it too. -/
theorem noLostTriage_of_fresh {findings : List Finding} {r : Review} {es : List ReviewEvent}
    (hids : (findings.map (·.id)).Nodup) (hF : Machine.Along step Fresh { findings } es)
    (h : Machine.run step { findings } es = some r) :
    r.NoLostTriage ∧ ∀ e r', step r e = some r' → (r'.NoLostTriage ↔ r.Fresh e) := by
  have hI : r.WellFormed ∧ r.NoLostTriage := by
    refine Machine.inv_of_run_along (I := fun r ↦ r.WellFormed ∧ r.NoLostTriage)
      (fun hI hF h ↦ ⟨hI.1.of_step h, (noLostTriage_step_iff hI.1 hI.2 h).2 hF⟩) hF h
      ⟨.start hids, fun _ _ _ hstatus ↦ by cases hstatus⟩
  exact ⟨hI.2, fun e r' ↦ noLostTriage_step_iff hI.1 hI.2⟩

/-! ### The handler -/

/-- A triage call that nobody comes between is the handler in one piece. -/
theorem run_triage_call [UnicodeTables] {w w' : Workspace} {principal : Principal}
    {assessment_id finding_id : ℕ} {status : Text} {a : AssessmentRow} {f : Finding}
    {new_status : FindingStatus}
    (hT : Workspace.Triaged w principal assessment_id finding_id status a f new_status w')
    (hids : (w.findings.map (·.id)).Nodup) :
    ∃ r, Machine.run step { findings := w.findings }
        [.open_triage finding_id new_status, .commit_triage 0] = some r ∧
      r.findings = w'.findings := by
  have hallowed : new_status ∈ TRIAGE_STATUSES := List.mem_of_find?_eq_some hT.status
  have hstatus : ({ findings := w.findings } : Review).statusOf finding_id = some f.status := by
    rw [statusOf, hT.finding]
    rfl
  have hopen : step { findings := w.findings } (.open_triage finding_id new_status) =
      some { findings := w.findings, calls := [⟨finding_id, new_status, f.status, false⟩] } := by
    rw [step, if_pos hallowed, hstatus]
    rfl
  refine ⟨{ writeStatus { findings := w.findings } finding_id f.status new_status with
    calls := [⟨finding_id, new_status, f.status, true⟩] }, ?_, ?_⟩
  · rw [Machine.run_cons, hopen]
    rfl
  · rw [hT.findings]
    refine List.map_congr_left fun g hg ↦ ?_
    by_cases hid : g.id = finding_id
    · have hf : f.id = finding_id := by simpa using List.find?_some hT.finding
      have heq : g = f := List.inj_on_of_nodup_map hids hg (List.mem_of_find?_eq_some hT.finding)
        (hid.trans hf.symm)
      rw [if_pos hid, if_pos hid, heq]
      exact congrArg (fun status ↦ { f with status }) UnitOfWork.commit_self
    · rw [if_neg hid, if_neg hid]

/-! ### Runs -/

/-- A finding is validated while an operator rejects it; `late` says that the call commits after the phase
has written. -/
def reviewRun (late : Bool) : List ReviewEvent :=
  [.read, .open_triage 1 .REJECTED, .validate (some .CONFIRMED)] ++
    if late then [.load, .write, .commit_triage 0] else [.commit_triage 0, .load, .write]

def sampleFinding : Finding := { id := 1, assessment_id := 0, check_class := "cors", dedup_key := [] }

theorem noLostTriage_of_fresh_late :
    ∃ r, Machine.run step { findings := [sampleFinding] } (reviewRun true) = some r ∧
      r.NoLostTriage := by
  have hF : Machine.Along step Fresh { findings := [sampleFinding] } (reviewRun true) := by decide
  exact ⟨_, rfl, (noLostTriage_of_fresh (by decide) hF rfl).1⟩

/-- A rejection that is committed before the outcome is written is lost. -/
theorem reviewRun_lost :
    ∃ r, Machine.run step { findings := [sampleFinding] } (reviewRun false) = some r ∧
      ¬r.NoLostTriage := by
  decide

end Review

end Sentrik
