import Sentrik.Orchestration.Batches

/-!
# Results that are lost

A consumer that notices a reason to stop leaves the loop with a result in hand, the rest of its group
handed over, and the other tasks of the pool running. None of these results is written.

`Batch.Heeds` is a step after which nothing is lost: a stop is noticed only while no unwritten result has
findings, and after that no agent of the pool finds anything before the call returns. `kept_of_heeds`: in a
run of such steps, whatever an agent found before its batch returned was written, once.
-/

namespace Sentrik

/-! ### Runs that found something -/

/-- The results of an agent that have findings. -/
def productive (a : ℕ × ℕ) (results : List AgentResult) : List AgentResult :=
  results.filter fun r ↦ r.agent_id = a ∧ r.findings ≠ []

theorem productive_append (a : ℕ × ℕ) (rs rs' : List AgentResult) :
    productive a (rs ++ rs') = productive a rs ++ productive a rs' := List.filter_append ..

theorem productive_of_ne {a : ℕ × ℕ} {rs : List AgentResult} (h : ∀ r ∈ rs, r.agent_id ≠ a) :
    productive a rs = [] :=
  List.filter_eq_nil_iff.2 fun r hr hkeep ↦ h r hr (of_decide_eq_true hkeep).1

/-- The agents of a batch differ in their places. -/
theorem productive_other {k i j : ℕ} {r : AgentResult} (h : r.agent_id = (k, i)) (hj : j ≠ i) :
    productive (k, j) [r] = [] := by
  refine productive_of_ne fun r' hr' heq ↦ ?_
  rw [List.mem_singleton.1 hr', h] at heq
  injection heq with _ hij
  exact hj hij.symm

/-- A result, if it has findings. -/
def AgentResult.yield (r : AgentResult) : List AgentResult := if r.findings ≠ [] then [r] else []

theorem productive_singleton {a : ℕ × ℕ} {r : AgentResult} (h : r.agent_id = a) :
    productive a [r] = r.yield := by
  rw [productive, AgentResult.yield, List.filter_cons, List.filter_nil]
  by_cases hfound : r.findings = []
  · rw [if_neg (by simp [hfound]), if_neg (not_not.2 hfound)]
  · rw [if_pos (by simp [hfound, h]), if_pos hfound]

theorem AgentResult.yield_eq_nil {r : AgentResult} (h : r.findings = []) : r.yield = [] :=
  if_neg (not_not.2 h)

/-- The run that a note says has ended. -/
def CrewNote.end : CrewNote → Option AgentResult
  | .ended r => some r
  | .persisted _ => none

/-- The runs of an agent that found something. -/
def found (w : List CrewNote) (a : ℕ × ℕ) : List AgentResult := productive a (w.filterMap CrewNote.end)

/-- The results with findings that were written for an agent. -/
def written (w : List CrewNote) (a : ℕ × ℕ) : List AgentResult :=
  productive a ((w.filterMap CrewNote.call).map (·.result))

/-! ### The condition -/

/-- No result is lost by this step. -/
def Batch.Heeds (b : Batch) : BatchEvent → Prop
  | .deliver noticed =>
    noticed = true → ∀ s ∈ b.slots, s.state.isFinished = true → ∀ r ∈ s.state.result, r.findings = []
  | .run i (.act findings) =>
    b.pc.streams = true ∨ b.pc = .returned ∨ _verify findings = [] ∨
      ∀ s ∈ b.slots[i]?, s.state.isRunning = false
  | _ => True

instance (b : Batch) (e : BatchEvent) : Decidable (b.Heeds e) :=
  match e with
  | .deliver _ => inferInstanceAs (Decidable (_ → _))
  | .run _ (.act _) => inferInstanceAs (Decidable (_ ∨ _))
  | .run _ (.consult _) | .run _ (.veto _) | .run _ (.raise ..) | .start .. | .timeout _ | .wait _
  | .drained | .retry _ | .rerun | .settle | .leave => isTrue trivial

/-- The same of a step of the batches. -/
def Crew.Heeds (c : Crew) : CrewEvent → Prop
  | .batch k e => ∀ b ∈ c.batches[k]?, b.Heeds e
  | .dispatch .. => True

instance (c : Crew) (e : CrewEvent) : Decidable (c.Heeds e) :=
  match e with
  | .batch k _ => inferInstanceAs (Decidable (∀ b ∈ c.batches[k]?, _))
  | .dispatch .. => isTrue trivial

/-! ### The invariant -/

/-- **The invariant** of a slot: what its agent has found, and what of it is written. -/
def SlotState.Kept (streams : Bool) (found written : List AgentResult) : SlotState → Prop
  | .waiting | .running _ => found = [] ∧ written = []
  | .finished r => written = [] ∧ found = if streams then r.yield else []
  | .taken r => found = r.yield ∧ written = r.yield
  | .rerunning _ (.returned r) => found = r.yield ∧ written = []
  | .rerunning _ _ => found = [] ∧ written = []

theorem SlotState.kept_ofRun {streams : Bool} {F W : List AgentResult} {run : Run} (hW : W = [])
    (hF : ∀ r, run = .returned r → F = if streams then r.yield else [])
    (hnone : (∀ r, run ≠ .returned r) → F = []) : (SlotState.ofRun run).Kept streams F W := by
  cases run with
  | returned r => exact ⟨hW, hF r rfl⟩
  | consulting | acting => exact ⟨hnone fun r h ↦ by (cases h), hW⟩

theorem SlotState.kept_rerunning {streams : Bool} {F W : List AgentResult} {attempts : ℕ} {run : Run}
    (hW : W = []) (hF : ∀ r, run = .returned r → F = r.yield)
    (hnone : (∀ r, run ≠ .returned r) → F = []) :
    (SlotState.rerunning attempts run).Kept streams F W := by
  cases run with
  | returned r => exact ⟨hF r rfl, hW⟩
  | consulting | acting => exact ⟨hnone fun r h ↦ by (cases h), hW⟩

namespace Batch

/-- Every slot of the `k`-th batch. -/
def Kept (F W : ℕ × ℕ → List AgentResult) (k : ℕ) (b : Batch) : Prop :=
  ∀ (i : ℕ) (s : Slot), b.slots[i]? = some s → s.state.Kept b.pc.streams (F (k, i)) (W (k, i))

/-- The runs that a step of a batch ends. -/
def ends (b : Batch) (e : BatchEvent) (b' : Batch) : List AgentResult :=
  match e with
  | .run i _ => if b.pc = .returned then [] else (b'.slots[i]?).elim [] (·.state.ended)
  | _ => []

section

variable {settings : Settings} {k : ℕ} {b b' : Batch} {e : BatchEvent} {calls : List PersistCall}
  {F W F' W' : ℕ × ℕ → List AgentResult}

/-- Nothing is found or written by a step that touches no slot. -/
theorem Kept.setPc (hb : Kept F W k b) {pc : BatchPc} {cancelled : Bool}
    (lost : b.pc.streams = pc.streams ∨
      pc.streams = false ∧ ∀ s ∈ b.slots, s.state.isFinished = true → ∀ r ∈ s.state.result, r.findings = []) :
    Kept F W k { b with pc, cancelled } := by
  intro i s hs
  have hkept := hb i s hs
  rcases lost with hsame | ⟨hstop, hlost⟩
  · show s.state.Kept pc.streams _ _
    rw [← hsame]
    exact hkept
  · show s.state.Kept pc.streams _ _
    rw [hstop]
    cases hstate : s.state with
    | finished r =>
      rw [hstate] at hkept
      obtain ⟨hW, hF⟩ := hkept
      refine ⟨hW, hF.trans ?_⟩
      have hnone : r.findings = [] :=
        hlost s (List.mem_of_getElem? hs) (by rw [hstate]; rfl) r (by rw [hstate]; rfl)
      rw [AgentResult.yield_eq_nil hnone, ite_self]
      rfl
    | waiting | running | taken =>
      rw [hstate] at hkept
      exact hkept
    | rerunning attempts run =>
      rw [hstate] at hkept
      cases run <;> exact hkept

/-- A step that touches one slot. -/
theorem Kept.setSlot (hb : Kept F W k b) {i : ℕ} {s₀ s : Slot} {pc : BatchPc}
    (slot : b.slots[i]? = some s₀) (streams : b.pc.streams = pc.streams)
    (frame : ∀ j ≠ i, F' (k, j) = F (k, j) ∧ W' (k, j) = W (k, j))
    (hs : s.state.Kept pc.streams (F' (k, i)) (W' (k, i))) :
    Kept F' W' k { b.setSlot i s with pc } := by
  intro j s' hs'
  rcases slot_of_setSlot slot hs' with ⟨rfl, rfl⟩ | ⟨hne, hs'⟩
  · exact hs
  · obtain ⟨hF, hW⟩ := frame j hne
    show s'.state.Kept pc.streams _ _
    rw [hF, hW, ← streams]
    exact hb j s' hs'

/-- What a step of a run leaves in its slot. -/
theorem ends_run {i : ℕ} {re : RunEvent} {s₀ s : Slot} {run : Run} (slot : b.slots[i]? = some s₀)
    (state : s.state.ended = (SlotState.rerunning 0 run).ended) :
    (∀ r, run = .returned r →
        b.ends (.run i re) (b.setSlot i s) = if b.pc = .returned then [] else [r]) ∧
      ((∀ r, run ≠ .returned r) → b.ends (.run i re) (b.setSlot i s) = []) := by
  have hlt : i < b.slots.length := (List.getElem?_eq_some_iff.1 slot).1
  have hslot : (b.setSlot i s).slots[i]? = some s := List.getElem?_set_self hlt
  have hends : b.ends (.run i re) (b.setSlot i s) =
      if b.pc = .returned then [] else (SlotState.rerunning 0 run).ended := by
    rw [ends, hslot, ← state]
    rfl
  rw [hends]
  refine ⟨fun r hr ↦ by rw [hr]; rfl, fun hnone ↦ ?_⟩
  cases run with
  | returned r => exact absurd rfl (hnone r)
  | consulting | acting => exact ite_self _

theorem ended_ofRun (run : Run) : (SlotState.ofRun run).ended = (SlotState.rerunning 0 run).ended := by
  cases run <;> rfl

/-- The findings of the run that ends are those of its agent. -/
theorem frame_run {i : ℕ} {re : RunEvent} {s₀ s : Slot} {run : Run} {agent : Agent}
    (slot : b.slots[i]? = some s₀) (state : s.state.ended = (SlotState.rerunning 0 run).ended)
    (hid : agent.id = (k, i)) (hreturns : ∀ r, run = .returned r → Agent.Returns agent re r) {j : ℕ}
    (hj : j ≠ i) : productive (k, j) (b.ends (.run i re) (b.setSlot i s)) = [] := by
  obtain ⟨hended, hnone⟩ := @ends_run _ _ re _ _ _ slot state
  cases run with
  | returned r =>
    rw [hended r rfl]
    split
    · rfl
    · exact productive_other ((hreturns r rfl).agent_id.trans hid) hj
  | consulting | acting =>
    rw [hnone fun r h ↦ by cases h]
    rfl

/-- **One step of a batch keeps the invariant.** -/
theorem Kept.move (hk : Kept F W k b) (hb : b.Coherent) (hs : b.Sound k) (heeds : b.Heeds e)
    (h : Move settings b e b' calls) (hF : ∀ a, F' a = F a ++ productive a (b.ends e b'))
    (hW : ∀ a, W' a = W a ++ productive a (calls.map (·.result))) : Kept F' W' k b' := by
  have hquiet : b.ends e b' = [] → F' = F := fun hends ↦ funext fun a ↦ by
    rw [hF, hends]
    exact List.append_nil _
  have hsilent : calls = [] → W' = W := fun hcalls ↦ funext fun a ↦ by
    rw [hW, hcalls]
    exact List.append_nil _
  cases h with
  | @skipped i s slot waiting =>
    rw [hquiet rfl, hsilent rfl]
    refine hk.setSlot slot rfl (fun _ _ ↦ ⟨rfl, rfl⟩) ?_
    have hslot := hk i s slot
    rw [waiting] at hslot
    exact ⟨hslot.2, hslot.1.trans (ite_self _).symm⟩
  | @started i s slot waiting =>
    rw [hquiet rfl, hsilent rfl]
    refine hk.setSlot slot rfl (fun _ _ ↦ ⟨rfl, rfl⟩) ?_
    have hslot := hk i s slot
    rw [waiting] at hslot
    refine SlotState.kept_ofRun hslot.2 (fun r hr ↦ ?_) fun _ ↦ hslot.1
    rw [Agent.loop_returned hr]
    exact hslot.1.trans (ite_self _).symm
  | @timedOut i s run slot state =>
    rw [hquiet rfl, hsilent rfl]
    refine hk.setSlot slot rfl (fun _ _ ↦ ⟨rfl, rfl⟩) ?_
    have hslot := hk i s slot
    rw [state] at hslot
    exact ⟨hslot.2, hslot.1.trans (ite_self _).symm⟩
  | @ran i re s run run' agent slot state ran =>
    rw [hsilent rfl]
    obtain ⟨hid, -, hreturns⟩ := Agent.returns_of_runStep ran
    have hagent := hid.trans (hs _ _ slot).agent_id
    obtain ⟨hended, hnone⟩ := @ends_run _ _ re _ { s with agent, state := .ofRun run' } run' slot
      (ended_ofRun run')
    have hslot := hk i s slot
    rw [state] at hslot
    refine hk.setSlot slot rfl (fun j hj ↦ ⟨?_, rfl⟩) ?_
    · rw [hF, frame_run slot (ended_ofRun run') hagent hreturns hj, List.append_nil]
    · refine SlotState.kept_ofRun hslot.2 (fun r hr ↦ ?_) fun hnot ↦ ?_
      · have hreturned := hreturns r hr
        rw [hF, hended r hr, hslot.1, List.nil_append]
        by_cases hpc : b.pc = .returned
        · rw [if_pos hpc, hpc]
          rfl
        · rw [if_neg hpc, productive_singleton (hreturned.agent_id.trans hagent)]
          split
          · rfl
          next hstreams =>
            -- the loop has been left: nothing may be found
            refine AgentResult.yield_eq_nil (by_contra fun hfound ↦ ?_)
            obtain ⟨findings, rfl, hverify⟩ := hreturned.found hfound
            rcases heeds with hstream | hreturn | hnil | hrun
            · exact hstreams hstream
            · exact hpc hreturn
            · exact hverify hnil
            · have hnot := hrun s slot
              rw [state] at hnot
              cases hnot
      · rw [hF, hnone hnot, hslot.1]
        rfl
  | @reran i attempts re s run run' agent slot state ran =>
    rw [hsilent rfl]
    obtain ⟨hid, -, hreturns⟩ := Agent.returns_of_runStep ran
    have hagent := hid.trans (hs _ _ slot).agent_id
    obtain ⟨hended, hnone⟩ := @ends_run _ _ re _ { s with agent, state := .rerunning attempts run' } run'
      slot (by cases run' <;> rfl)
    have hslot := hk i s slot
    rw [state] at hslot
    have hstart : F (k, i) = [] ∧ W (k, i) = [] := by
      cases run with
      | returned r => cases ran
      | consulting | acting => exact hslot
    have hpc : b.pc ≠ .returned := fun hpc ↦ by
      obtain ⟨attempt, queue, errored, hrerun⟩ := hb.alone slot state
      rw [hpc] at hrerun
      cases hrerun
    refine hk.setSlot slot rfl (fun j hj ↦ ⟨?_, rfl⟩) ?_
    · rw [hF, frame_run slot (by cases run' <;> rfl) hagent hreturns hj, List.append_nil]
    · refine SlotState.kept_rerunning hstart.2 (fun r hr ↦ ?_) fun hnot ↦ ?_
      · rw [hF, hended r hr, if_neg hpc, hstart.1,
          productive_singleton ((hreturns r hr).agent_id.trans hagent)]
        rfl
      · rw [hF, hnone hnot, hstart.1]
        rfl
  | waited pc =>
    rw [hquiet rfl, hsilent rfl]
    exact hk.setPc (Or.inl (by rw [pc]; rfl))
  | stopped pc =>
    rw [hquiet rfl, hsilent rfl]
    exact hk.setPc (Or.inr ⟨rfl, heeds rfl⟩)
  | @delivered i group errored s result pc slot state =>
    rw [hquiet rfl]
    have hsound := (hs _ _ slot).result result (by rw [state]; rfl)
    have hslot := hk i s slot
    rw [state, pc] at hslot
    refine hk.setSlot slot (by rw [pc]; rfl) (fun j hj ↦ ⟨rfl, ?_⟩) ⟨hslot.2, ?_⟩
    · rw [hW]
      exact (congrArg _ (productive_other hsound.1 hj)).trans (List.append_nil _)
    · rw [hW, hslot.1]
      exact productive_singleton hsound.1
  | drained pc taken =>
    rw [hquiet rfl, hsilent rfl]
    refine hk.setPc (Or.inr ⟨by split <;> rfl, fun s hs hfinished ↦ ?_⟩)
    have htaken := taken s hs
    cases hstate : s.state with
    | taken r =>
      rw [hstate] at hfinished
      cases hfinished
    | _ =>
      rw [hstate] at htaken
      cases htaken
  | retried pc =>
    rw [hquiet rfl, hsilent rfl]
    refine hk.setPc (Or.inl ?_)
    rw [pc, nextRound]
    split <;> rfl
  | next pc =>
    rw [hquiet rfl, hsilent rfl]
    exact hk.setPc (Or.inl (by rw [pc]; rfl))
  | @rerun attempt i queue errored s result pc slot state =>
    rw [hquiet rfl, hsilent rfl]
    -- it is run again because it failed, so it has found nothing
    obtain ⟨r, htaken, hfailed⟩ := hb.failed (by rw [pc]; exact List.mem_cons_self) slot
    have hnone := ((hs _ _ slot).result r (by rw [htaken]; rfl)).2 hfailed
    have hslot := hk i s slot
    rw [htaken] at hslot
    have hfound := hslot.1.trans (AgentResult.yield_eq_nil hnone)
    refine hk.setSlot slot (by rw [pc]; rfl) (fun _ _ ↦ ⟨rfl, rfl⟩) ?_
    refine SlotState.kept_rerunning (hslot.2.trans (AgentResult.yield_eq_nil hnone)) (fun r hr ↦ ?_)
      fun _ ↦ hfound
    rw [Agent.loop_returned hr]
    exact hfound
  | @settled attempt attempts i queue errored s result pc slot state =>
    rw [hquiet rfl]
    have hsound := (hs _ _ slot).result result (by rw [state]; rfl)
    have hslot := hk i s slot
    rw [state] at hslot
    refine hk.setSlot slot (by rw [pc]; rfl) (fun j hj ↦ ⟨rfl, ?_⟩) ⟨hslot.1, ?_⟩
    · rw [hW]
      exact (congrArg _ (productive_other hsound.1 hj)).trans (List.append_nil _)
    · rw [hW, hslot.2]
      exact productive_singleton hsound.1
  | left pc =>
    rw [hquiet rfl, hsilent rfl]
    exact hk.setPc (Or.inl (by rw [pc]; rfl))

/-- What a batch ends is of its agents. -/
theorem ends_agent (hs : b'.Sound k) {r : AgentResult} (hr : r ∈ b.ends e b') : r.agent_id.1 = k := by
  cases e with
  | run i re =>
    rw [ends] at hr
    split at hr
    · cases hr
    · cases hslot : b'.slots[i]? with
      | none =>
        rw [hslot] at hr
        cases hr
      | some s =>
        rw [hslot] at hr
        have hresult : r ∈ s.state.result := by
          revert hr
          show r ∈ s.state.ended → _
          cases s.state with
          | finished r' => exact fun hr ↦ by rw [List.mem_singleton.1 hr]; rfl
          | rerunning attempts run =>
            cases run with
            | returned r' => exact fun hr ↦ by rw [List.mem_singleton.1 hr]; rfl
            | consulting | acting => exact fun hr ↦ by cases hr
          | waiting | running | taken => exact fun hr ↦ by cases hr
        rw [((hs i s hslot).result r hresult).1]
  | _ => cases hr

end

end Batch

namespace Crew

/-- What holds of the notes so far. -/
structure Keeping (c : Crew) (w : List CrewNote) : Prop where
  wf : c.Wf
  kept : ∀ (k : ℕ) (b : Batch), c.batches[k]? = some b → b.Kept (found w) (written w) k
  fresh : ∀ k i, c.batches.length ≤ k → found w (k, i) = [] ∧ written w (k, i) = []

section

variable {digest : Text → Text} {settings : Settings} {c c' : Crew} {e : CrewEvent} {w : List CrewNote}

theorem found_append (a : ℕ × ℕ) :
    found (w ++ notes settings c e c') a = found w a ++ productive a (ends c e c') := by
  rw [found, List.filterMap_append, productive_append, notes, List.filterMap_append, List.filterMap_map,
    List.filterMap_map]
  have hends : (ends c e c').filterMap (CrewNote.end ∘ .ended) = ends c e c' := List.filterMap_some
  have hcalls : (calls settings c e).filterMap (CrewNote.end ∘ .persisted) = [] :=
    List.filterMap_eq_nil_iff.2 fun r _ ↦ rfl
  rw [hends, hcalls, List.append_nil]
  rfl

theorem written_append (a : ℕ × ℕ) : written (w ++ notes settings c e c') a =
    written w a ++ productive a ((calls settings c e).map (·.result)) := by
  rw [written, List.filterMap_append, List.map_append, productive_append, calls_of_notes]
  rfl

theorem Keeping.step (hc : c.Keeping w) (heeds : c.Heeds e) (h : Crew.step digest settings c e = some c') :
    c'.Keeping (w ++ notes settings c e c') := by
  have hwf := hc.wf.step h
  rcases batches_of_step h with ⟨main, agents, rfl, hbatches, -⟩ |
    ⟨k, e, b, b', calls, rfl, hb, hstep, hbatches, -⟩
  · have hF : ∀ a, found (w ++ notes settings c (.dispatch main agents) c') a = found w a := fun a ↦ by
      rw [found_append]
      exact List.append_nil _
    have hW : ∀ a, written (w ++ notes settings c (.dispatch main agents) c') a = written w a := fun a ↦ by
      rw [written_append]
      exact List.append_nil _
    refine ⟨hwf, fun k b hb ↦ ?_, fun k i hk ↦ ?_⟩
    · rw [hbatches] at hb
      rw [funext hF, funext hW]
      rcases batch_of_append hb with hb | ⟨rfl, rfl⟩
      · exact hc.kept k b hb
      · intro i s hs
        rw [Batch.ofSpecs, List.getElem?_mapIdx] at hs
        obtain ⟨a, -, rfl⟩ := Option.map_eq_some_iff.1 hs
        exact hc.fresh _ i (Nat.le_refl _)
    · rw [hbatches, List.length_append] at hk
      rw [hF, hW]
      exact hc.fresh k i (by omega)
  · have hmove := Batch.move_of_step hstep
    obtain ⟨hcoherent, hsound⟩ := hc.wf k b hb
    have hlt : k < c.batches.length := (List.getElem?_eq_some_iff.1 hb).1
    have hb' : c'.batches[k]? = some b' := by
      rw [hbatches]
      exact List.getElem?_set_self hlt
    have hends : ends c (.batch k e) c' = b.ends e b' := by
      cases e with
      | run i re =>
        rw [ends, hb, hb', Batch.ends]
        simp
      | _ => rfl
    have hcalls : Crew.calls settings c (.batch k e) = calls := by
      rw [Crew.calls, hb, Option.bind_some, hstep]
      rfl
    have hother : ∀ j ≠ k, ∀ i, found (w ++ notes settings c (.batch k e) c') (j, i) = found w (j, i) ∧
        written (w ++ notes settings c (.batch k e) c') (j, i) = written w (j, i) := by
      intro j hj i
      rw [found_append, written_append, hends, hcalls]
      constructor
      · rw [productive_of_ne fun r hr heq ↦ hj ?_, List.append_nil]
        rw [← Batch.ends_agent (hsound.move hmove) hr, heq]
      · rw [productive_of_ne fun r hr heq ↦ hj ?_, List.append_nil]
        obtain ⟨call, hcall, rfl⟩ := List.mem_map.1 hr
        rw [← Batch.calls_agent hsound hmove hcall, heq]
    refine ⟨hwf, fun j b'' hb'' ↦ ?_, fun j i hj ↦ ?_⟩
    · rw [hbatches] at hb''
      rcases batch_of_set hb hb'' with ⟨rfl, rfl⟩ | ⟨hne, hb''⟩
      · refine (hc.kept _ b hb).move hcoherent hsound (heeds b hb) hmove (fun a ↦ ?_) fun a ↦ ?_
        · rw [found_append, hends]
        · rw [written_append, hcalls]
      · intro i s hs
        rw [(hother j hne i).1, (hother j hne i).2]
        exact hc.kept j b'' hb'' i s hs
    · rw [hbatches, List.length_set] at hj
      rw [(hother j (by omega) i).1, (hother j (by omega) i).2]
      exact hc.fresh j i hj

/-- **Nothing is lost**, in every run of steps that lose nothing: the store is what the calls of
`_persist_agent_result` have written, and for every run of an agent that found something before its batch
returned, one of these calls was made, with its result. -/
theorem kept_of_heeds {steps : List PlanStep} {es : List CrewEvent}
    (hes : Machine.Along (step digest settings) Heeds (start steps) es)
    (h : Machine.run (step digest settings) (start steps) es = some c) :
    c.store = ((Machine.trace (step digest settings) (notes settings) (start steps) es).filterMap
        CrewNote.call).foldl (·._persist_agent_result digest ·) { steps } ∧
      ∀ (k : ℕ) (b : Batch) (i : ℕ) (s : Slot), c.batches[k]? = some b → b.slots[i]? = some s →
        b.pc = .returned →
          ∀ r, .ended r ∈ Machine.trace (step digest settings) (notes settings) (start steps) es →
            r.agent_id = (k, i) → r.findings ≠ [] →
              written (Machine.trace (step digest settings) (notes settings) (start steps) es) (k, i) =
                [r] := by
  refine ⟨store_of_run h, fun k b i s hb hs hreturned r hr hid hfound ↦ ?_⟩
  have hc : c.Keeping (Machine.trace (step digest settings) (notes settings) (start steps) es) :=
    Machine.inv_of_trace_along (fun hI hC hs ↦ hI.step hC hs) hes h
      ⟨fun k b hb ↦ by (cases hb), fun k b hb ↦ by (cases hb), fun _ _ _ ↦ ⟨rfl, rfl⟩⟩
  have hmem : r ∈ found (Machine.trace (step digest settings) (notes settings) (start steps) es) (k, i) :=
    List.mem_filter.2 ⟨List.mem_filterMap.2 ⟨_, hr, rfl⟩, decide_eq_true ⟨hid, hfound⟩⟩
  have hkept := hc.kept k b hb i s hs
  rw [hreturned] at hkept
  cases hstate : s.state with
  | waiting | running =>
    rw [hstate] at hkept
    rw [hkept.1] at hmem
    cases hmem
  | finished r' =>
    rw [hstate] at hkept
    rw [hkept.2] at hmem
    cases hmem
  | taken r' =>
    rw [hstate] at hkept
    rw [hkept.1, AgentResult.yield] at hmem
    split at hmem
    next hfound' =>
      rw [hkept.2, AgentResult.yield, if_pos hfound', List.mem_singleton.1 hmem]
    · cases hmem
  | rerunning attempts run =>
    obtain ⟨attempt, queue, errored, hpc⟩ := (hc.wf k b hb).1.alone hs hstate
    rw [hreturned] at hpc
    cases hpc

end

end Crew

/-- Two agents of a main pass find something; the consumer has noticed a stop, or not, when it takes their
results. -/
def twoFinds (noticed : Bool) : List CrewEvent :=
  .dispatch true [sampleSpec 0, sampleSpec 1] :: beginsToProbe 0 ++ beginsToProbe 1 ++
    [findsSomething 0, findsSomething 1, .batch 0 (.wait [0, 1]), .batch 0 (.deliver noticed)] ++
    if noticed then [.batch 0 .leave]
    else [.batch 0 (.deliver false), .batch 0 .drained, .batch 0 (.retry false), .batch 0 .leave]

def twoFindsRun (noticed : Bool) : Option Crew :=
  Machine.run (Crew.step id {}) (Crew.start []) (twoFinds noticed)

def twoFindsNotes (noticed : Bool) : List CrewNote :=
  Machine.trace (Crew.step id {}) (Crew.notes {}) (Crew.start []) (twoFinds noticed)

/-- What the agent of this place found. -/
def sampleResult (i : ℕ) : AgentResult where
  agent_id := (0, i)
  role := "cors-specialist"
  findings := [{ check_class := "cors", severity := .LOW, confidence := .HIGH, dedup_seed := ['a'] }]
  decisions := [⟨(0, i), "cors-specialist", "inspect_plan", "probe".toList, "deterministic", []⟩]
  steps_used := 1

/-- The first batch has returned, and has two agents. -/
def Crew.firstReturned (c : Crew) : Bool :=
  c.batches[0]?.any fun b ↦ b.pc = .returned ∧ b.slots.length = 2

theorem slot_of_firstReturned {c : Crew} (h : c.firstReturned = true) {i : ℕ} (hi : i < 2) :
    ∃ b s, c.batches[0]? = some b ∧ b.slots[i]? = some s ∧ b.pc = .returned := by
  obtain ⟨b, hb, hreturned⟩ := (Option.any_eq_true _ _).1 h
  obtain ⟨hpc, hlength⟩ := of_decide_eq_true hreturned
  have hlt : i < b.slots.length := by omega
  exact ⟨b, _, hb, List.getElem?_eq_getElem hlt, hpc⟩

/-- Both have found something before the batch returned, and nothing is written. -/
theorem twoFinds_lost :
    ¬∀ (es : List CrewEvent) (c : Crew), Machine.run (Crew.step id {}) (Crew.start []) es = some c →
      ∀ (k : ℕ) (b : Batch) (i : ℕ) (s : Slot), c.batches[k]? = some b → b.slots[i]? = some s →
        b.pc = .returned →
          ∀ r, .ended r ∈ Machine.trace (Crew.step id {}) (Crew.notes {}) (Crew.start []) es →
            r.agent_id = (k, i) → r.findings ≠ [] →
              written (Machine.trace (Crew.step id {}) (Crew.notes {}) (Crew.start []) es) (k, i) =
                [r] := by
  intro h
  have hrun : (twoFindsRun true).any Crew.firstReturned = true := by decide +kernel
  obtain ⟨c, hc, hreturned⟩ := (Option.any_eq_true _ _).1 hrun
  have hended : .ended (sampleResult 0) ∈ twoFindsNotes true := by decide +kernel
  have hwritten : written (twoFindsNotes true) (0, 0) = [] := by decide +kernel
  obtain ⟨b, s, hb, hs, hpc⟩ := slot_of_firstReturned hreturned Nat.zero_lt_two
  have hone := h _ c hc 0 b 0 s hb hs hpc _ hended rfl (List.cons_ne_nil _ _)
  cases hwritten.symm.trans hone

theorem kept_of_heeds_unnoticed : ∃ c, twoFindsRun false = some c ∧
    c.store = ((twoFindsNotes false).filterMap CrewNote.call).foldl
      (·._persist_agent_result id ·) {} ∧
      written (twoFindsNotes false) (0, 1) = [sampleResult 1] := by
  have hrun : (twoFindsRun false).any Crew.firstReturned = true := by decide +kernel
  obtain ⟨c, hc, hreturned⟩ := (Option.any_eq_true _ _).1 hrun
  have hended : .ended (sampleResult 1) ∈ twoFindsNotes false := by decide +kernel
  obtain ⟨b, s, hb, hs, hpc⟩ := slot_of_firstReturned hreturned Nat.one_lt_two
  have hheeds : Machine.Along (Crew.step id {}) Crew.Heeds (Crew.start []) (twoFinds false) := by
    decide +kernel
  obtain ⟨hstore, hkept⟩ := Crew.kept_of_heeds hheeds hc
  exact ⟨c, hc, hstore, hkept 0 b 1 s hb hs hpc _ hended rfl (List.cons_ne_nil _ _)⟩

end Sentrik
