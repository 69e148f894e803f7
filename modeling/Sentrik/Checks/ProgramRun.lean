import Sentrik.Library.Slots
import Sentrik.Checks.Client
import Sentrik.Security.PoolMoves

/-!
# Running a program over the pool

A program runs while the pool does what it does: its calls are calls of the pool, and between them any
other coroutine may use the client. So the guard a call meets (its budget, its record, its window) and
what the target answers are those of the run.

What the client makes of the arguments of a call is a parameter (`prepare`), about which nothing is
assumed.

* `ProgramRun.ends`: at the end of a run, the log is a transcript of the program.
* `ProgramRun.sent_of_received`: every response in the log was received by a call of the program that
  handed a request to the library in that run.
-/

namespace Sentrik

open Interaction (Ends)

/-- How a call has ended. -/
def Stage.answer? : Stage → Option Answer
  | .returned resp => some (.ok resp)
  | .raised exc => some (.error (.client exc))
  | _ => none

/-- A call in this stage has handed a request to the library. -/
def Stage.emitted : Stage → Bool
  | .sending _ | .returned _ => true
  | _ => false

/-- A program, what it has done so far, and the pool it runs over. -/
structure ProgramRun (κ α : Type) where
  pool : Pool κ
  /-- What is left of the program. -/
  rest : Interaction Query Answer α
  /-- The call it awaits. -/
  awaits : Option ℕ := none
  /-- Its own calls. -/
  own : List ℕ := []
  log : List Exchange := []

namespace ProgramRun

/-- What happens next. -/
inductive Label
  /-- The program makes its next call, under these clock readings and DNS answers. -/
  | calls (now : ℤ) (clock : ℚ) (scope rebinding sandbox : DnsAnswer)
  /-- The program goes on from a call that is over. -/
  | resumes
  /-- An event of the pool. -/
  | pool (e : Event)

/-- The program at its start. -/
def start {κ α : Type} (pool : Pool κ) (program : Program α) : ProgramRun κ (Except Raised α) where
  pool
  rest := program.run

/-- The result, once the program has ended. -/
def result? {κ α : Type} (s : ProgramRun κ α) : Option α :=
  match s.rest with
  | .done a => some a
  | .ask .. => none

section

variable [u : UnicodeTables] {κ α : Type}

def step (cl : Client κ) (prepare : Query → Args) (s : ProgramRun κ α) :
    Label → Option (ProgramRun κ α)
  | .calls now clock scope rebinding sandbox =>
    match s.rest, s.awaits with
    | .ask query _, none => do
      let pool ← s.pool.step cl (.request (prepare query) now clock scope rebinding sandbox)
      let i := s.pool.calls.length
      return { s with pool, awaits := some i, own := s.own ++ [i] }
    | _, _ => none
  | .resumes =>
    match s.rest, s.awaits with
    | .ask query next, some i => do
      let c ← s.pool.calls[i]?
      let answer ← c.stage.answer?
      return { s with rest := next answer, awaits := none, log := s.log ++ [(query, answer)] }
    | _, _ => none
  | .pool e => do
    let pool ← s.pool.step cl e
    return { s with pool }

/-! ### What a step of the pool sends -/

/-- If this call is past a send, its request is in the log of the pool. -/
def EmittedSent (p : Pool κ) (i : ℕ) : Prop :=
  ∀ c, p.calls[i]? = some c → c.stage.emitted = true → ∃ e ∈ p.sent, e.call = i

variable {cl : Client κ} {p p' : Pool κ} {i j : ℕ} {c c' : Call}

theorem emitted_of_advance (h : Pool.Advance cl p i c p' c') (hs : c'.stage.emitted = true) :
    ∃ e ∈ p'.sent, e.call = i := by
  cases h with
  | waits stage acquiring _ =>
    have hstage : stage.emitted = true := hs
    cases stage with
    | sending _ => cases acquiring
    | returned _ => cases acquiring
    | _ => cases hstage
  | counts => cases hs
  | fails => cases hs
  | sends req _ _ _ _ _ sent =>
    exact ⟨_, sent ▸ List.mem_append_right _ List.mem_cons_self, rfl⟩

theorem sent_of_advance (h : Pool.Advance cl p i c p' c') : p.sent ⊆ p'.sent := by
  cases h with
  | waits _ _ same => exact same.sent ▸ List.Subset.refl _
  | counts _ _ sent => exact sent ▸ List.Subset.refl _
  | fails _ _ sent => exact sent ▸ List.Subset.refl _
  | sends _ _ _ _ _ _ sent => exact sent ▸ List.subset_append_left _ _

/-- What resuming a call does to the calls, the log and the call. -/
structure Resumed (p : Pool κ) (i : ℕ) (c : Call) (p' : Pool κ) (c' : Call) : Prop where
  calls : p'.calls = p.calls
  sent : p.sent ⊆ p'.sent
  emitted : c'.stage.emitted = true → c.stage.emitted = true ∨ ∃ e ∈ p'.sent, e.call = i

theorem Resumed.of_advance (h : Pool.Advance cl p i c p' c') : Resumed p i c p' c' :=
  ⟨h.calls_eq, sent_of_advance h, fun hs ↦ .inr (emitted_of_advance h hs)⟩

theorem resumed_of_resume {e : Event} (h : p.resume cl i c e = some (p', c')) :
    Resumed p i c p' c' := by
  rw [Pool.resume.eq_def] at h
  split at h
  next clock _ =>
    split at h
    · have hadv := Pool.limited_advance cl p i c (p.rate.locked clock)
      rw [Option.some.inj h] at hadv
      exact .of_advance hadv
    · cases h
  next clock _ =>
    have hadv := Pool.limited_advance cl p i c (p.rate.slept clock, .acquired)
    rw [Option.some.inj h] at hadv
    exact .of_advance hadv
  next count _ =>
    have hemit := Pool.send_emit cl
      { p with store := (cl.on_request.getD fun _ s ↦ s) count p.store } i c
    rw [Option.some.inj h] at hemit
    cases hemit with
    | fails _ same => exact ⟨same.calls, same.sent ▸ List.Subset.refl _, nofun⟩
    | sends _ _ _ _ calls _ sent =>
      exact ⟨calls, sent ▸ List.subset_append_left _ _,
        fun _ ↦ .inr ⟨_, sent ▸ List.mem_append_right _ List.mem_cons_self, rfl⟩⟩
  next resp clock answer req hstage =>
    -- a call that awaits a response has sent its request already
    have hsending : c.stage.emitted = true := by
      rw [hstage]
      rfl
    have hresp := Pool.respond_cases cl p i c req resp clock answer
    rw [Option.some.inj h] at hresp
    obtain ⟨same, -⟩ | ⟨p₀, c₁, -, same, -, -, -, -, -, -, advance⟩ := hresp
    · exact ⟨same.calls, same.sent ▸ List.Subset.refl _, fun _ ↦ .inl hsending⟩
    · exact ⟨advance.calls_eq.trans same.calls,
        same.sent ▸ sent_of_advance advance, fun _ ↦ .inl hsending⟩
  next =>
    obtain ⟨rfl, rfl⟩ := Prod.mk.inj (Option.some.inj h)
    exact ⟨rfl, List.Subset.refl _, nofun⟩
  next =>
    obtain ⟨rfl, rfl⟩ := Prod.mk.inj (Option.some.inj h)
    exact ⟨rfl, List.Subset.refl _, nofun⟩
  next =>
    obtain ⟨rfl, rfl⟩ := Prod.mk.inj (Option.some.inj h)
    exact ⟨rfl, List.Subset.refl _, nofun⟩
  next =>
    obtain ⟨rfl, rfl⟩ := Prod.mk.inj (Option.some.inj h)
    exact ⟨rfl, List.Subset.refl _, nofun⟩
  next =>
    obtain ⟨rfl, rfl⟩ := Prod.mk.inj (Option.some.inj h)
    exact ⟨rfl, List.Subset.refl _, nofun⟩
  next => cases h

/-- A new call. -/
theorem resumed_of_request (cl : Client κ) (p : Pool κ) (args : Args) (now : ℤ) (clock : ℚ)
    (a₁ a₂ a₃ : DnsAnswer) :
    Resumed p p.calls.length (Pool.newCall args a₁) (p.request cl args now clock a₁ a₂ a₃).1
      (p.request cl args now clock a₁ a₂ a₃).2 := by
  rw [Pool.request]
  split
  next => exact ⟨rfl, List.Subset.refl _, nofun⟩
  next =>
    have hadv := Pool.limited_advance cl p p.calls.length
    exact ⟨(hadv _ _).calls_eq, sent_of_advance (hadv _ _), fun hs ↦
      .inr (emitted_of_advance (hadv _ _) hs)⟩

omit u in
/-- Writing back a call that was made or resumed. -/
theorem Resumed.put (h : Resumed p j c p' c') {l : List Call} (hputs : Puts p.calls j c' l)
    (hc : p.calls[j]? = some c ∨ c.stage.emitted = false)
    (hsent : EmittedSent p i) : EmittedSent { p' with calls := l } i := by
  intro b hb hemitted
  by_cases hij : i = j
  · subst hij
    obtain rfl : c' = b := Option.some.inj (hputs.self.symm.trans hb)
    rcases h.emitted hemitted with hbefore | hnow
    · rcases hc with hc | hc
      · obtain ⟨e, he, hi⟩ := hsent c hc hbefore
        exact ⟨e, h.sent he, hi⟩
      · rw [hc] at hbefore
        cases hbefore
    · exact hnow
  · obtain ⟨e, he, hi⟩ := hsent b ((hputs.other i hij).symm.trans hb) hemitted
    exact ⟨e, h.sent he, hi⟩

/-- A step of the pool only adds to its log, and keeps the connection of a call to it. -/
theorem emittedSent_step {e : Event} (hstep : p.step cl e = some p') :
    p.sent ⊆ p'.sent ∧ (EmittedSent p i → EmittedSent p' i) := by
  cases e with
  | request args now clock a₁ a₂ a₃ =>
    have h := resumed_of_request cl p args now clock a₁ a₂ a₃
    have hp : { (p.request cl args now clock a₁ a₂ a₃).1 with
        calls := (p.request cl args now clock a₁ a₂ a₃).1.calls ++
          [(p.request cl args now clock a₁ a₂ a₃).2] } = p' := Option.some.inj hstep
    rw [← hp, h.calls]
    refine ⟨h.sent, fun hsent ↦ ?_⟩
    exact h.put (Puts.append p.calls _) (.inr rfl) hsent
  | aexit =>
    obtain rfl := Option.some.inj hstep
    exact ⟨List.Subset.refl _, id⟩
  | _ =>
    simp only [Pool.step, Event.call?, Option.bind_eq_bind, Option.bind_some] at hstep
    obtain ⟨c, hc, hstep⟩ := Option.bind_eq_some_iff.1 hstep
    obtain ⟨⟨q, c'⟩, hr, hstep⟩ := Option.bind_eq_some_iff.1 hstep
    obtain rfl := Option.some.inj hstep
    have h := resumed_of_resume hr
    refine ⟨h.sent, fun hsent ↦ ?_⟩
    rw [h.calls]
    exact h.put (Puts.set hc c') (.inl hc) hsent

/-! ### Runs -/

/-- What a run of a program keeps. -/
structure Inv (m : Interaction Query Answer α) (s : ProgramRun κ α) : Prop where
  /-- What is left of the program continues the log. -/
  ends : ∀ log a, Ends s.rest log a → Ends m (s.log ++ log) a
  received : ∀ query resp, (query, Except.ok resp) ∈ s.log → ∃ e ∈ s.pool.sent, e.call ∈ s.own
  awaited : ∀ i, s.awaits = some i → i ∈ s.own ∧ EmittedSent s.pool i

variable {prepare : Query → Args} {m : Interaction Query Answer α} {s t : ProgramRun κ α}

omit u in
theorem Inv.start (program : Program α) : Inv program.run (start p program) where
  ends _ _ h := h
  received _ _ h := absurd h List.not_mem_nil
  awaited _ h := nomatch h

theorem Inv.step {l : Label} (h : Inv m s) (hstep : step cl prepare s l = some t) : Inv m t := by
  cases l with
  | calls now clock a₁ a₂ a₃ =>
    simp only [ProgramRun.step] at hstep
    split at hstep
    next query next hrest hawaits =>
      obtain ⟨pool, hpool, hstep⟩ := Option.bind_eq_some_iff.1 hstep
      obtain rfl := Option.some.inj hstep
      obtain ⟨hsub, hkeep⟩ := emittedSent_step (i := s.pool.calls.length) hpool
      refine ⟨h.ends, fun q resp hmem ↦ ?_, fun i hi ↦ ?_⟩
      · obtain ⟨e, he, hown⟩ := h.received q resp hmem
        exact ⟨e, hsub he, List.mem_append_left _ hown⟩
      · obtain rfl : s.pool.calls.length = i := Option.some.inj hi
        refine ⟨List.mem_append_right _ List.mem_cons_self, hkeep fun c hc _ ↦ ?_⟩
        rw [List.getElem?_eq_none le_rfl] at hc
        cases hc
    next => cases hstep
  | resumes =>
    simp only [ProgramRun.step] at hstep
    split at hstep
    next query next i hrest hawaits =>
      obtain ⟨c, hc, hstep⟩ := Option.bind_eq_some_iff.1 hstep
      obtain ⟨answer, hanswer, hstep⟩ := Option.bind_eq_some_iff.1 hstep
      obtain rfl := Option.some.inj hstep
      refine ⟨fun log a hends ↦ ?_, fun q resp hmem ↦ ?_, nofun⟩
      · rw [List.append_assoc]
        refine h.ends _ a ?_
        rw [hrest]
        exact .ask hends
      · rcases List.mem_append.1 hmem with hmem | hmem
        · exact h.received q resp hmem
        · -- the response is that of the awaited call, which is past its send
          obtain ⟨hown, hsent⟩ := h.awaited i hawaits
          obtain rfl : Except.ok resp = answer := (Prod.mk.inj (List.mem_singleton.1 hmem)).2
          have hemitted : c.stage.emitted = true := by
            cases hstage : c.stage <;> rw [hstage] at hanswer <;> first | rfl | cases hanswer
          obtain ⟨e, he, rfl⟩ := hsent c hc hemitted
          exact ⟨e, he, hown⟩
    next => cases hstep
  | pool e =>
    obtain ⟨pool, hpool, hstep⟩ := Option.bind_eq_some_iff.1 hstep
    obtain rfl := Option.some.inj hstep
    refine ⟨h.ends, fun q resp hmem ↦ ?_, fun i hi ↦ ?_⟩
    · obtain ⟨hsub, -⟩ := emittedSent_step (i := 0) hpool
      obtain ⟨e, he, hown⟩ := h.received q resp hmem
      exact ⟨e, hsub he, hown⟩
    · obtain ⟨hown, hsent⟩ := h.awaited i hi
      exact ⟨hown, (emittedSent_step hpool).2 hsent⟩

variable {program : Program α} {es : List Label} {s : ProgramRun κ (Except Raised α)}

/-- At its end, a run of a program has a transcript of it in the log. -/
theorem ends (h : Machine.run (step cl prepare) (start p program) es = some s) {x : Except Raised α}
    (hresult : s.result? = some x) : Ends program.run s.log x := by
  have hinv : Inv program.run s := Machine.inv_of_run (fun hI hs ↦ hI.step hs) h (.start program)
  rw [result?] at hresult
  split at hresult
  next a hrest =>
    obtain rfl := Option.some.inj hresult
    have hends := hinv.ends [] a
    rw [hrest, List.append_nil] at hends
    exact hends (.done a)
  next => cases hresult

/-- A received response belongs to a call of the program that has sent a request in the run. -/
theorem sent_of_received (h : Machine.run (step cl prepare) (start p program) es = some s)
    {query : Query} {resp : GuardedResponse} (hmem : (query, .ok resp) ∈ s.log) :
    ∃ e ∈ s.pool.sent, e.call ∈ s.own :=
  (Machine.inv_of_run (fun hI hs ↦ Inv.step hI hs) h (.start program)).received query resp hmem

end

end ProgramRun

end Sentrik
