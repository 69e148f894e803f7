import Sentrik.Orchestration.Batches

/-!
# Decisions in the audit log

The trail of decisions lives in the agent. A run that comes to its end copies it whole into its result,
also what earlier runs of the same agent put there; a result the pool makes up for an agent that was out of
time, or skipped, carries none of it. What a result carries is audited when the result is written.

`Batch.Carries` is a step after which every decision can still be audited once: an agent whose decisions
are audited is not run again, a stop is noticed only while no unwritten agent has decided, nobody decides
after that, and the batch returns only when no agent was out of time after it had decided.
`audited_of_carries`: in a run of such steps, the audit rows of an agent whose batch has returned are its
trail.
-/

namespace Sentrik

/-- The agent was out of time. -/
def AgentResult.timedOut (r : AgentResult) : Prop := r.error = "timeout".toList

instance (r : AgentResult) : Decidable r.timedOut := inferInstanceAs (Decidable (_ = _))

/-- The agent that is run again next. -/
def BatchPc.nextRerun : BatchPc → Option ℕ
  | .round _ (i :: _) _ => some i
  | _ => none

/-! ### The condition -/

/-- No decision gets lost, or is audited again, by this step. -/
def Batch.Carries (b : Batch) : BatchEvent → Prop
  | .deliver noticed =>
    noticed = true → ∀ s ∈ b.slots, s.state.isTaken = false → s.agent._decisions = []
  | .run i e =>
    e.decides = true → ∀ s ∈ b.slots[i]?, s.state.isRunning = true → b.pc.streams = true
  | .rerun =>
    ∀ i ∈ b.pc.nextRerun, ∀ s ∈ b.slots[i]?, ∀ r ∈ s.state.result, s.agent._decisions = [] ∨ r.timedOut
  | .leave =>
    ∀ s ∈ b.slots, s.state.isTaken = true → ∀ r ∈ s.state.result, r.timedOut → s.agent._decisions = []
  | _ => True

instance (b : Batch) (e : BatchEvent) : Decidable (b.Carries e) := by
  unfold Batch.Carries
  split <;> infer_instance

/-- The same of a step of the batches. -/
def Crew.Carries (c : Crew) : CrewEvent → Prop
  | .batch k e => ∀ b ∈ c.batches[k]?, b.Carries e
  | .dispatch .. => True

instance (c : Crew) (e : CrewEvent) : Decidable (c.Carries e) := by
  unfold Crew.Carries
  split <;> infer_instance

/-! ### What is audited -/

namespace ResultStore

variable {digest : Text → Text}

theorem trailOf_persist (store : ResultStore) (call : PersistCall) (a : ℕ × ℕ) :
    (store._persist_agent_result digest call).trailOf a =
      store.trailOf a ++ if call.result.agent_id = a then call.result.decisions else [] := by
  obtain ⟨-, -, haudit, -⟩ := @writes_of_persist digest store call
  rw [trailOf, haudit, List.filter_append, List.map_append]
  congr 1
  split
  next heq =>
    have hall : (call.result.decisions.map (⟨call.result.agent_id, ·⟩)).filter (·.actor = a) =
        (call.result.decisions.map (⟨call.result.agent_id, ·⟩) : List DecisionRow) := by
      refine List.filter_eq_self.2 fun row hrow ↦ ?_
      obtain ⟨d, -, rfl⟩ := List.mem_map.1 hrow
      exact decide_eq_true heq
    rw [hall, List.map_map]
    exact List.map_id _
  next hne =>
    have hnone : (call.result.decisions.map (⟨call.result.agent_id, ·⟩)).filter (·.actor = a) =
        ([] : List DecisionRow) := by
      refine List.filter_eq_nil_iff.2 fun row hrow hactor ↦ ?_
      obtain ⟨d, -, rfl⟩ := List.mem_map.1 hrow
      exact hne (of_decide_eq_true hactor)
    rw [hnone, List.map_nil]

/-- What calls carry of an agent's decisions. -/
def carried (calls : List PersistCall) (a : ℕ × ℕ) : List DecisionRecord :=
  calls.flatMap fun call ↦ if call.result.agent_id = a then call.result.decisions else []

theorem trailOf_foldl (a : ℕ × ℕ) (calls : List PersistCall) (store : ResultStore) :
    (calls.foldl (·._persist_agent_result digest ·) store).trailOf a =
      store.trailOf a ++ carried calls a := by
  induction calls generalizing store with
  | nil => exact (List.append_nil _).symm
  | cons call calls ih => rw [List.foldl_cons, ih, trailOf_persist, List.append_assoc, carried, carried,
      List.flatMap_cons]

theorem carried_singleton (call : PersistCall) (a : ℕ × ℕ) :
    carried [call] a = if call.result.agent_id = a then call.result.decisions else [] :=
  List.flatMap_singleton ..

theorem carried_other {calls : List PersistCall} {a : ℕ × ℕ}
    (h : ∀ call ∈ calls, call.result.agent_id ≠ a) : carried calls a = [] :=
  List.flatMap_eq_nil_iff.2 fun call hcall ↦ if_neg (h call hcall)

end ResultStore

/-! ### The invariant -/

/-- What a result carries of the trail: all of it, but nothing if the agent was out of time. -/
structure AgentResult.Carries (r : AgentResult) (trail : List DecisionRecord) : Prop where
  late : r.timedOut → r.decisions = []
  whole : ¬r.timedOut → r.decisions = trail

theorem AgentResult.Carries.of_returns {a : Agent} {e : RunEvent} {r : AgentResult}
    (h : Agent.Returns a e r) : r.Carries a._decisions :=
  ⟨fun hlate ↦ absurd hlate h.in_time, fun _ ↦ h.decisions⟩

/-- **The invariant** of a slot: the audit rows of its agent, beside the trail. -/
def SlotState.Audited (pc : BatchPc) (rows trail : List DecisionRecord) : SlotState → Prop
  | .waiting => rows = [] ∧ trail = []
  | .running _ => rows = [] ∧ (pc.streams = false → trail = [])
  | .finished r => rows = [] ∧ r.Carries trail ∧ (pc.streams = false → trail = [])
  | .taken r => rows = r.decisions ∧ r.Carries trail ∧ (pc = .returned → rows = trail)
  | .rerunning _ run => rows = [] ∧ ∀ r, run = .returned r → r.Carries trail

theorem SlotState.audited_ofRun {pc : BatchPc} {rows trail : List DecisionRecord} {run : Run}
    (hrows : rows = []) (hlost : pc.streams = false → trail = [])
    (hreturned : ∀ r, run = .returned r → r.Carries trail) :
    (SlotState.ofRun run).Audited pc rows trail := by
  cases run with
  | returned r => exact ⟨hrows, hreturned r rfl, hlost⟩
  | consulting | acting => exact ⟨hrows, hlost⟩

/-- What is audited is the trail, once the result with all of it is written. -/
theorem AgentResult.Carries.rows_eq {r : AgentResult} {rows trail : List DecisionRecord}
    (h : r.Carries trail) (hrows : rows = r.decisions) (hlate : r.timedOut → trail = []) :
    rows = trail := by
  by_cases htimed : r.timedOut
  · rw [hrows, h.late htimed, hlate htimed]
  · rw [hrows, h.whole htimed]

namespace Batch

/-- Every slot of the `k`-th batch. -/
def Audited (R : ℕ × ℕ → List DecisionRecord) (k : ℕ) (b : Batch) : Prop :=
  ∀ (i : ℕ) (s : Slot), b.slots[i]? = some s → s.state.Audited b.pc (R (k, i)) s.agent._decisions

section

variable {settings : Settings} {k : ℕ} {b b' : Batch} {e : BatchEvent} {calls : List PersistCall}
  {R R' : ℕ × ℕ → List DecisionRecord}

/-- The consumer goes on: what it leaves behind has decided nothing, and at the end every trail is
audited. -/
theorem Audited.setPc (hb : Audited R k b) {pc : BatchPc} {cancelled : Bool}
    (lost : pc.streams = false → b.pc.streams = true → ∀ s ∈ b.slots, s.state.isTaken = false →
      s.agent._decisions = [])
    (ends : pc = .returned → ∀ s ∈ b.slots, s.state.isTaken = true → ∀ r ∈ s.state.result, r.timedOut →
      s.agent._decisions = []) : Audited R k { b with pc, cancelled } := by
  intro i s hs
  have haudited := hb i s hs
  have hmem := List.mem_of_getElem? hs
  show s.state.Audited pc _ _
  have hlost : (b.pc.streams = false → s.agent._decisions = []) → s.state.isTaken = false →
      pc.streams = false → s.agent._decisions = [] := by
    intro hold huntaken hstop
    cases hstreams : b.pc.streams with
    | true => exact lost hstop hstreams s hmem huntaken
    | false => exact hold hstreams
  cases hstate : s.state with
  | waiting =>
    rw [hstate] at haudited
    exact haudited
  | running run =>
    rw [hstate] at haudited hlost
    exact ⟨haudited.1, hlost haudited.2 rfl⟩
  | finished r =>
    rw [hstate] at haudited hlost
    exact ⟨haudited.1, haudited.2.1, hlost haudited.2.2 rfl⟩
  | taken r =>
    rw [hstate] at haudited
    refine ⟨haudited.1, haudited.2.1, fun hreturned ↦ ?_⟩
    exact haudited.2.1.rows_eq haudited.1
      (ends hreturned s hmem (by rw [hstate]; rfl) r (by rw [hstate]; rfl))
  | rerunning attempts run =>
    rw [hstate] at haudited
    exact haudited

/-- A step that touches one slot. -/
theorem Audited.setSlot (hb : Audited R k b) {i : ℕ} {s₀ s : Slot} {pc : BatchPc}
    (slot : b.slots[i]? = some s₀) (streams : b.pc.streams = pc.streams)
    (returned : pc = .returned → b.pc = .returned) (frame : ∀ j ≠ i, R' (k, j) = R (k, j))
    (hs : s.state.Audited pc (R' (k, i)) s.agent._decisions) :
    Audited R' k { b.setSlot i s with pc } := by
  intro j s' hs'
  rcases slot_of_setSlot slot hs' with ⟨rfl, rfl⟩ | ⟨hne, hs'⟩
  · exact hs
  · have haudited := hb j s' hs'
    rw [← frame j hne] at haudited
    show s'.state.Audited pc _ _
    cases hstate : s'.state with
    | waiting | rerunning =>
      rw [hstate] at haudited
      exact haudited
    | running run =>
      rw [hstate] at haudited
      exact ⟨haudited.1, fun hstop ↦ haudited.2 (streams.trans hstop)⟩
    | finished r =>
      rw [hstate] at haudited
      exact ⟨haudited.1, haudited.2.1, fun hstop ↦ haudited.2.2 (streams.trans hstop)⟩
    | taken r =>
      rw [hstate] at haudited
      exact ⟨haudited.1, haudited.2.1, fun hreturned ↦ haudited.2.2 (returned hreturned)⟩

/-- **One step of a batch keeps the invariant.** -/
theorem Audited.move (ha : Audited R k b) (hs : b.Sound k) (carries : b.Carries e)
    (h : Move settings b e b' calls)
    (hR : ∀ a, R' a = R a ++ ResultStore.carried calls a) : Audited R' k b' := by
  have hsilent : calls = [] → R' = R := fun hcalls ↦ funext fun a ↦ by
    rw [hR, hcalls]
    exact List.append_nil _
  cases h with
  | @skipped i s slot waiting =>
    rw [hsilent rfl]
    have hslot := ha i s slot
    rw [waiting] at hslot
    refine ha.setSlot slot rfl id (fun _ _ ↦ rfl) ⟨hslot.1, ⟨fun _ ↦ rfl, fun _ ↦ hslot.2.symm⟩, fun _ ↦ hslot.2⟩
  | @started i s slot waiting =>
    rw [hsilent rfl]
    have hslot := ha i s slot
    rw [waiting] at hslot
    refine ha.setSlot slot rfl id (fun _ _ ↦ rfl) ?_
    refine SlotState.audited_ofRun hslot.1 (fun _ ↦ hslot.2) fun r hr ↦ ?_
    rw [Agent.loop_returned hr]
    exact ⟨fun _ ↦ hslot.2, fun _ ↦ rfl⟩
  | @timedOut i s run slot state =>
    rw [hsilent rfl]
    have hslot := ha i s slot
    rw [state] at hslot
    exact ha.setSlot slot rfl id (fun _ _ ↦ rfl)
      ⟨hslot.1, ⟨fun _ ↦ rfl, fun hnot ↦ absurd rfl hnot⟩, hslot.2⟩
  | @ran i re s run run' agent slot state ran =>
    rw [hsilent rfl]
    obtain ⟨-, htrail, hreturns⟩ := Agent.returns_of_runStep ran
    have hslot := ha i s slot
    rw [state] at hslot
    refine ha.setSlot slot rfl id (fun _ _ ↦ rfl) ?_
    refine SlotState.audited_ofRun hslot.1 (fun hstop ↦ ?_) fun r hr ↦ .of_returns (hreturns r hr)
    change b.pc.streams = false at hstop
    -- after the loop nobody in the pool decides
    cases hdecides : re.decides with
    | true =>
      have hstreams := carries hdecides s slot (by rw [state]; rfl)
      rw [hstop] at hstreams
      cases hstreams
    | false => exact (htrail hdecides).trans (hslot.2 hstop)
  | @reran i attempts re s run run' agent slot state ran =>
    rw [hsilent rfl]
    obtain ⟨-, -, hreturns⟩ := Agent.returns_of_runStep ran
    have hslot := ha i s slot
    rw [state] at hslot
    exact ha.setSlot slot rfl id (fun _ _ ↦ rfl) ⟨hslot.1, fun r hr ↦ .of_returns (hreturns r hr)⟩
  | waited pc =>
    rw [hsilent rfl]
    exact ha.setPc (fun hstop ↦ by cases hstop) fun h ↦ by cases h
  | stopped pc =>
    rw [hsilent rfl]
    exact ha.setPc (fun _ _ ↦ carries rfl) fun h ↦ by cases h
  | @delivered i group errored s result pc slot state =>
    have hsound := (hs _ _ slot).result result (by rw [state]; rfl)
    have hslot := ha i s slot
    rw [state] at hslot
    refine ha.setSlot slot (by rw [pc]; rfl) (fun h ↦ by cases h) (fun j hj ↦ ?_) ⟨?_, hslot.2.1, fun h ↦ ?_⟩
    · rw [hR, ResultStore.carried_singleton, if_neg, List.append_nil]
      exact fun heq ↦ hj (Prod.mk.inj (heq.symm.trans hsound.1)).2
    · rw [hR, hslot.1, ResultStore.carried_singleton]
      exact if_pos hsound.1
    · cases h
  | drained pc taken =>
    rw [hsilent rfl]
    refine ha.setPc (fun _ _ s hs huntaken ↦ ?_) fun h ↦ ?_
    · rw [taken s hs] at huntaken
      cases huntaken
    · revert h
      split <;> exact fun h ↦ by cases h
  | retried pc =>
    rw [hsilent rfl]
    refine ha.setPc (fun _ hstreams ↦ ?_) fun h ↦ ?_
    · rw [pc] at hstreams
      cases hstreams
    · revert h
      rw [nextRound]
      split <;> exact fun h ↦ by cases h
  | next pc =>
    rw [hsilent rfl]
    refine ha.setPc (fun _ hstreams ↦ ?_) fun h ↦ by cases h
    rw [pc] at hstreams
    cases hstreams
  | @rerun attempt i queue errored s result pc slot state =>
    rw [hsilent rfl]
    have hslot := ha i s slot
    rw [state] at hslot
    obtain ⟨hrows, hcarries, -⟩ := hslot
    have hnext : s.agent._decisions = [] ∨ result.timedOut :=
      carries i (by rw [pc]; rfl) s slot result (by rw [state]; rfl)
    refine ha.setSlot slot (by rw [pc]; rfl) (fun h ↦ by cases h) (fun _ _ ↦ rfl) ⟨?_, fun r hr ↦ ?_⟩
    · by_cases htimed : result.timedOut
      · rw [hrows, hcarries.late htimed]
      · rw [hrows, hcarries.whole htimed, hnext.resolve_right htimed]
    · rw [Agent.loop_returned hr]
      exact .of_returns (@Agent.returns_result s.agent (.raise [] []))
  | @settled attempt attempts i queue errored s result pc slot state =>
    have hsound := (hs _ _ slot).result result (by rw [state]; rfl)
    have hslot := ha i s slot
    rw [state] at hslot
    refine ha.setSlot slot (by rw [pc]; rfl) (fun h ↦ by cases h) (fun j hj ↦ ?_)
      ⟨?_, hslot.2 result rfl, fun h ↦ ?_⟩
    · rw [hR, ResultStore.carried_singleton, if_neg, List.append_nil]
      exact fun heq ↦ hj (Prod.mk.inj (heq.symm.trans hsound.1)).2
    · rw [hR, hslot.1, ResultStore.carried_singleton]
      exact if_pos hsound.1
    · cases h
  | left pc =>
    rw [hsilent rfl]
    refine ha.setPc (fun _ hstreams ↦ ?_) fun _ ↦ carries
    rw [pc] at hstreams
    cases hstreams

end

end Batch

namespace Crew

/-- What holds of the audit log. -/
structure Auditing (c : Crew) : Prop where
  wf : c.Wf
  audited : ∀ (k : ℕ) (b : Batch), c.batches[k]? = some b → b.Audited c.store.trailOf k
  fresh : ∀ k i, c.batches.length ≤ k → c.store.trailOf (k, i) = []

section

variable {digest : Text → Text} {settings : Settings} {c c' : Crew} {e : CrewEvent}

theorem Auditing.step (hc : c.Auditing) (carries : c.Carries e)
    (h : Crew.step digest settings c e = some c') : c'.Auditing := by
  have hwf := hc.wf.step h
  rcases batches_of_step h with ⟨main, agents, rfl, hbatches, hstore⟩ |
    ⟨k, e, b, b', calls, rfl, hb, hstep, hbatches, hstore⟩
  · refine ⟨hwf, fun k b hb ↦ ?_, fun k i hk ↦ ?_⟩
    · rw [hbatches] at hb
      rw [hstore]
      rcases batch_of_append hb with hb | ⟨rfl, rfl⟩
      · exact hc.audited k b hb
      · intro i s hs
        rw [Batch.ofSpecs, List.getElem?_mapIdx] at hs
        obtain ⟨a, -, rfl⟩ := Option.map_eq_some_iff.1 hs
        exact ⟨hc.fresh _ i (Nat.le_refl _), rfl⟩
    · rw [hbatches, List.length_append] at hk
      rw [hstore]
      exact hc.fresh k i (by omega)
  · have hmove := Batch.move_of_step hstep
    obtain ⟨-, hsound⟩ := hc.wf k b hb
    have hlt : k < c.batches.length := (List.getElem?_eq_some_iff.1 hb).1
    have hrows : ∀ a, c'.store.trailOf a = c.store.trailOf a ++ ResultStore.carried calls a := fun a ↦ by
      rw [hstore]
      exact ResultStore.trailOf_foldl a calls c.store
    have hother : ∀ j ≠ k, ∀ i, c'.store.trailOf (j, i) = c.store.trailOf (j, i) := by
      intro j hj i
      rw [hrows, ResultStore.carried_other fun call hcall heq ↦ hj ?_, List.append_nil]
      rw [← Batch.calls_agent hsound hmove hcall, heq]
    refine ⟨hwf, fun j b'' hb'' ↦ ?_, fun j i hj ↦ ?_⟩
    · rw [hbatches] at hb''
      rcases batch_of_set hb hb'' with ⟨rfl, rfl⟩ | ⟨hne, hb''⟩
      · exact (hc.audited _ b hb).move hsound (carries b hb) hmove hrows
      · intro i s hs
        rw [hother j hne i]
        exact hc.audited j b'' hb'' i s hs
    · rw [hbatches, List.length_set] at hj
      rw [hother j (by omega) i]
      exact hc.fresh j i hj

/-- **Every decision is audited once**, in every run of steps that lose none and audit none again: when a
batch has returned, the audit rows of each of its agents are the trail of the agent. -/
theorem audited_of_carries {steps : List PlanStep} {es : List CrewEvent}
    (hes : Machine.Along (step digest settings) Carries (start steps) es)
    (h : Machine.run (step digest settings) (start steps) es = some c) (k : ℕ) (b : Batch) (i : ℕ)
    (s : Slot) (hb : c.batches[k]? = some b) (hs : b.slots[i]? = some s) (returned : b.pc = .returned) :
    (c.store.trailOf (k, i)).Perm s.agent._decisions := by
  have hc : c.Auditing := Machine.inv_of_run_along (fun hI hC hs ↦ hI.step hC hs) hes h
    ⟨fun k b hb ↦ by (cases hb), fun k b hb ↦ by (cases hb), fun _ _ _ ↦ rfl⟩
  have haudited := hc.audited k b hb i s hs
  have hstreams : b.pc.streams = false := by rw [returned]; rfl
  cases hstate : s.state with
  | waiting =>
    rw [hstate] at haudited
    rw [haudited.1, haudited.2]
  | running run =>
    rw [hstate] at haudited
    rw [haudited.1, haudited.2 hstreams]
  | finished r =>
    rw [hstate] at haudited
    rw [haudited.1, haudited.2.2 hstreams]
  | taken r =>
    rw [hstate] at haudited
    rw [haudited.2.2 returned]
  | rerunning attempts run =>
    obtain ⟨attempt, queue, errored, hpc⟩ := (hc.wf k b hb).1.alone hs hstate
    rw [returned] at hpc
    cases hpc

end

end Crew

/-- The first agent decides to probe, its tool raises, and it is run again: it probes, and finds nothing. -/
def probesTwice : List CrewEvent :=
  .dispatch true [sampleSpec 0] :: beginsToProbe 0 ++ [
    .batch 0 (.run 0 (.raise "TimeoutError".toList [])), .batch 0 (.wait [0]), .batch 0 (.deliver false),
    .batch 0 .drained, .batch 0 (.retry false), .batch 0 .rerun,
    .batch 0 (.run 0 (.consult { action := "probe".toList, reasoning := [] })),
    .batch 0 (.run 0 (.act [])), .batch 0 .settle, .batch 0 .rerun, .batch 0 (.retry false),
    .batch 0 .leave]

/-- It finds something at once. -/
def probesOnce : List CrewEvent :=
  .dispatch true [sampleSpec 0] :: beginsToProbe 0 ++ [
    findsSomething 0, .batch 0 (.wait [0]), .batch 0 (.deliver false), .batch 0 .drained,
    .batch 0 (.retry false), .batch 0 .leave]

/-- The first agent of the first batch, which has returned. -/
def Crew.firstAgent (c : Crew) : Option Agent :=
  c.batches[0]?.bind fun b ↦ if b.pc = .returned then b.slots[0]?.map (·.agent) else none

theorem slot_of_firstAgent {c : Crew} {a : Agent} (h : c.firstAgent = some a) :
    ∃ b s, c.batches[0]? = some b ∧ b.slots[0]? = some s ∧ b.pc = .returned ∧ s.agent = a := by
  obtain ⟨b, hb, h⟩ := Option.bind_eq_some_iff.1 h
  split at h
  next hpc =>
    obtain ⟨s, hs, hagent⟩ := Option.map_eq_some_iff.1 h
    exact ⟨b, s, hb, hs, hpc, hagent⟩
  · cases h

/-- The second result carries the first decision again: three rows for two decisions. -/
theorem probesTwice_not_audited :
    ¬∀ (es : List CrewEvent) (c : Crew), Machine.run (Crew.step id {}) (Crew.start []) es = some c →
      ∀ (k : ℕ) (b : Batch) (i : ℕ) (s : Slot), c.batches[k]? = some b → b.slots[i]? = some s →
        b.pc = .returned → (c.store.trailOf (k, i)).Perm s.agent._decisions := by
  intro h
  have hrun : (Machine.run (Crew.step id {}) (Crew.start []) probesTwice).any (fun c ↦
      decide (c.firstAgent.any (·._decisions.length = 2) = true ∧ (c.store.trailOf (0, 0)).length = 3)) =
      true := by decide +kernel
  obtain ⟨c, hc, hends⟩ := (Option.any_eq_true _ _).1 hrun
  obtain ⟨hagent, hrows⟩ := of_decide_eq_true hends
  obtain ⟨a, ha, htwo⟩ := (Option.any_eq_true _ _).1 hagent
  obtain ⟨b, s, hb, hs, hpc, rfl⟩ := slot_of_firstAgent ha
  have hlength := (h _ c hc 0 b 0 s hb hs hpc).length_eq
  rw [hrows, of_decide_eq_true htwo] at hlength
  cases hlength

theorem audited_of_carries_once : ∃ c a,
    Machine.run (Crew.step id {}) (Crew.start []) probesOnce = some c ∧ c.firstAgent = some a ∧
      a._decisions ≠ [] ∧ (c.store.trailOf (0, 0)).Perm a._decisions := by
  have hrun : (Machine.run (Crew.step id {}) (Crew.start []) probesOnce).any (fun c ↦
      c.firstAgent.any (·._decisions ≠ [])) = true := by decide +kernel
  obtain ⟨c, hc, hagent⟩ := (Option.any_eq_true _ _).1 hrun
  obtain ⟨a, ha, hne⟩ := (Option.any_eq_true _ _).1 hagent
  obtain ⟨b, s, hb, hs, hpc, rfl⟩ := slot_of_firstAgent ha
  have hcarries : Machine.Along (Crew.step id {}) Crew.Carries (Crew.start []) probesOnce := by
    decide +kernel
  exact ⟨c, s.agent, hc, ha, of_decide_eq_true hne, Crew.audited_of_carries hcarries hc 0 b 0 s hb hs hpc⟩

end Sentrik
