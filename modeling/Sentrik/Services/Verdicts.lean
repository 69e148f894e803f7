import Sentrik.Security.ReferenceHttpx
import Sentrik.Services.Observations

/-!
# Positive verdicts

Each program is read along its branches (`Reads`): whatever the client answers, a positive result is what
was to be observed exactly if nothing was misread. Most programs never misread, and for these it is
enough to follow what they return (`Returns`).

`verdict_sound_iff` puts the programs into runs of the client: there a received response also means that
a request was sent in the call.
-/

namespace Sentrik

open Interaction

open Validation

/-! ### Reading a log -/

/-- Whatever is answered: where the program raises, nothing was misread, and where it returns, a positive
result is what was to be observed exactly if nothing was misread. -/
def Reads {α : Type} (positive : α → Prop) (program : Program α)
    (detects misreads : List Exchange → Prop) : Prop :=
  Always program.run fun log x ↦
    match x with
    | .ok a => (positive a → detects log) ↔ ¬misreads log
    | .error _ => ¬misreads log

/-- A program that is never wrong. -/
theorem Reads.of_returns {α : Type} {positive : α → Prop} {program : Program α}
    {detects : List Exchange → Prop}
    (h : Returns program fun log a ↦ positive a → detects log) :
    Reads positive program detects fun _ ↦ False := by
  refine Always.mono h fun log x hx ↦ ?_
  cases x with
  | ok a => exact iff_of_true (hx a rfl) not_false
  | error exc => exact not_false

theorem Reads.congr {α : Type} {positive : α → Prop} {program : Program α}
    {detects detects' misreads misreads' : List Exchange → Prop}
    (h : Reads positive program detects misreads) (hd : ∀ log, detects log ↔ detects' log)
    (hm : ∀ log, misreads log ↔ misreads' log) : Reads positive program detects' misreads' := by
  obtain rfl : detects = detects' := funext fun log ↦ propext (hd log)
  obtain rfl : misreads = misreads' := funext fun log ↦ propext (hm log)
  exact h

section

variable [u : UnicodeTables]

/-- Sending a value in a parameter, and going on from the response. -/
theorem returns_probe {α : Type} {method url param value : Json} {next : GuardedResponse → Program α}
    {post : List Exchange → α → Prop}
    (h : ∀ query resp, query.Carries [(param, value)] →
      Returns (next resp) fun log a ↦ post ((query, .ok resp) :: log) a) :
    Returns (sendOverrides method url (override param value) >>= next) post := by
  rw [returns_bind]
  refine returns_sendOverrides fun query o resp ho hq ↦ ?_
  rw [eq_of_override ho] at hq
  exact h query resp hq

/-! ### The validators that are never wrong -/

theorem returns_validate_xss (repro : Dict) :
    Returns (_validate_xss repro) fun log o ↦
      o.outcome = .CONFIRMED → UnescapedReflection repro log := by
  rw [_validate_xss]
  refine returns_probe fun q resp hq ↦ ?_
  rw [returns_bind, returns_ofExcept]
  intro reflected hreflected
  split
  next hfound =>
    dsimp only
    split
    next => exact returns_pure.2 nofun
    next hrender =>
      obtain rfl : reflected = true := hfound
      exact returns_pure.2 fun _ ↦ ⟨resp, ⟨q, by simp, hq⟩, hreflected, by simpa using hrender⟩
  split
  · exact returns_pure.2 nofun
  · exact returns_pure.2 nofun

theorem returns_regress_xss (repro : Dict) :
    Returns (Regression._regress_xss repro) fun log r ↦
      r.status = .still_vulnerable → UnescapedReflection repro log := by
  rw [Regression._regress_xss]
  refine returns_probe fun q resp hq ↦ ?_
  rw [returns_bind, returns_ofExcept]
  intro reflected hreflected
  split
  next hfound =>
    obtain rfl : reflected = true := hfound
    split at hreflected
    next hrender =>
      exact returns_pure.2 fun _ ↦ ⟨resp, ⟨q, by simp, hq⟩, hreflected, hrender⟩
    next => cases hreflected
  next => exact returns_pure.2 nofun

theorem returns_validate_bola (repro : Dict) (sessions : List AuthSession) :
    Returns (_validate_bola repro sessions) fun log o ↦
      o.outcome = .CONFIRMED → ObjectAccess repro log := by
  rw [_validate_bola]
  dsimp only
  split
  · exact returns_pure.2 nofun
  rw [returns_bind, returns_attempt, always_run_request]
  intro answer
  split
  · exact returns_pure.2 nofun
  · exact returns_throw
  next anon =>
  split
  next hfound => exact returns_pure.2 fun _ ↦ ⟨_, anon, List.mem_cons_self, hfound⟩
  split
  · exact returns_pure.2 nofun
  rw [returns_bind, returns_attempt, always_run_request]
  intro answer
  split
  · exact returns_pure.2 nofun
  · exact returns_throw
  next as_attacker =>
  split
  next hfound => exact returns_pure.2 fun _ ↦
    ⟨_, as_attacker, List.mem_cons_of_mem _ List.mem_cons_self, hfound⟩
  split
  · exact returns_pure.2 nofun
  · exact returns_pure.2 nofun

theorem returns_validate_prompt_injection (repro : Dict) :
    Returns (_validate_prompt_injection repro) fun log o ↦
      o.outcome = .CONFIRMED → PromptLeak repro log := by
  rw [_validate_prompt_injection]
  dsimp only
  split
  · exact returns_pure.2 nofun
  rw [returns_bind, returns_ofExcept]
  intro benign hbenign
  rw [returns_bind, returns_request]
  intro baseline
  rw [returns_bind, returns_ofExcept]
  intro probe hprobe
  rw [returns_bind, returns_request]
  intro injection
  split
  next hfound =>
    refine returns_pure.2 fun _ ↦ ⟨baseline, injection, ⟨_, List.mem_cons_self, ?_⟩,
      ⟨_, List.mem_cons_of_mem _ List.mem_cons_self, ?_⟩, hfound⟩
    · exact .inl (congrArg some (eq_of_override hbenign))
    · exact .inl (congrArg some (eq_of_override hprobe))
  next => exact returns_pure.2 nofun

section

variable [w : WordTables]

theorem returns_validate_business_logic (repro : Dict) :
    Returns (_validate_business_logic repro) fun log o ↦
      o.outcome = .CONFIRMED → OutOfRangeApplied repro log := by
  rw [_validate_business_logic]
  split
  · exact returns_pure.2 nofun
  refine returns_probe fun q₁ baseline h₁ ↦ returns_probe fun q₂ probe h₂ ↦ ?_
  split
  · exact returns_pure.2 nofun
  next hbaseline =>
  split
  next hfound =>
    exact returns_pure.2 fun _ ↦ ⟨baseline, probe, ⟨q₁, by simp, h₁⟩, ⟨q₂, by simp, h₂⟩,
      not_not.1 hbaseline, hfound⟩
  split
  · exact returns_pure.2 nofun
  · exact returns_pure.2 nofun

end

variable [lib : StandardLibrary]

theorem returns_validate_sqli (repro : Dict) :
    Returns (_validate_sqli repro) fun log o ↦ o.outcome = .CONFIRMED → SqlInjection repro log := by
  rw [_validate_sqli]
  split
  · refine returns_probe fun q₁ resp h₁ ↦ ?_
    split
    next hfound => exact returns_pure.2 fun _ ↦ .inl ⟨_, resp, ⟨q₁, by simp, h₁⟩, hfound⟩
    next =>
      refine returns_probe fun q₂ resp₂ h₂ ↦ ?_
      split
      next hfound => exact returns_pure.2 fun _ ↦ .inl ⟨_, resp₂, ⟨q₂, by simp, h₂⟩, hfound⟩
      next => exact returns_pure.2 nofun
  split
  · refine returns_probe fun q₁ baseline h₁ ↦ returns_probe fun q₂ r_true h₂ ↦
      returns_probe fun q₃ r_false h₃ ↦ ?_
    dsimp only
    split
    next hfound =>
      rw [Bool.and_eq_true, Bool.or_eq_true, decide_eq_true_iff, Bool.not_eq_true'] at hfound
      exact returns_pure.2 fun _ ↦ .inr ⟨baseline, r_true, r_false, ⟨q₁, by simp, h₁⟩,
        ⟨q₂, by simp, h₂⟩, ⟨q₃, by simp, h₃⟩, hfound⟩
    split
    · exact returns_pure.2 nofun
    · exact returns_pure.2 nofun
  · exact returns_pure.2 nofun

theorem returns_regress_sqli (repro : Dict) :
    Returns (Regression._regress_sqli repro) fun log r ↦
      r.status = .still_vulnerable → SqlInjection repro log := by
  rw [Regression._regress_sqli]
  split
  · refine returns_probe fun q₁ resp h₁ ↦ ?_
    split
    next hfound => exact returns_pure.2 fun _ ↦ .inl ⟨_, resp, ⟨q₁, by simp, h₁⟩, hfound⟩
    next => exact returns_pure.2 nofun
  · refine returns_probe fun q₁ baseline h₁ ↦ returns_probe fun q₂ r_true h₂ ↦
      returns_probe fun q₃ r_false h₃ ↦ ?_
    dsimp only
    split
    next hfound =>
      rw [Bool.and_eq_true, Bool.or_eq_true, decide_eq_true_iff, Bool.not_eq_true'] at hfound
      exact returns_pure.2 fun _ ↦ .inr ⟨baseline, r_true, r_false, ⟨q₁, by simp, h₁⟩,
        ⟨q₂, by simp, h₂⟩, ⟨q₃, by simp, h₃⟩, hfound⟩
    next => exact returns_pure.2 nofun

/-! ### Flows -/

omit lib in
/-- What reading variables leaves as observed: what was there before, or a value of the document. -/
theorem observed_of_readVariables {flow : FlowDefinition} {data : Json}
    {items vars vars' : List (Text × Text)} {observed observed' : Option Json}
    (h : readVariables flow data items vars observed = .ok (vars', observed')) :
    observed' = observed ∨ ∃ fields key value, data = .obj fields ∧
      Dict.get? fields key = some value ∧ observed' = some value ∧ (flow.invariant_var, key) ∈ items := by
  induction items generalizing vars observed with
  | nil =>
    obtain ⟨-, rfl⟩ := Prod.mk.inj (Except.ok.inj h)
    exact .inl rfl
  | cons item rest ih =>
    obtain ⟨var, key⟩ := item
    rw [readVariables] at h
    split at h
    · cases h
    · cases h
    next value _ hvalue =>
      obtain ⟨fields, hfields, hget⟩ := Option.bind_eq_some_iff.1 hvalue
      have hdata : data = .obj fields := by
        cases data <;> first | cases hfields; rfl | cases hfields
      rcases ih h with hobs | ⟨fields', key', value', hdata', hget', hobs, hmem⟩
      · by_cases hvar : var = flow.invariant_var
        · rw [if_pos hvar] at hobs
          exact .inr ⟨fields, key, value, hdata, hget, hobs, hvar ▸ List.mem_cons_self⟩
        · rw [if_neg hvar] at hobs
          exact .inl hobs
      · exact .inr ⟨fields', key', value', hdata', hget', hobs, List.mem_cons_of_mem _ hmem⟩

omit lib in
/-- A variable that cannot be read confirms nothing. -/
theorem outcome_of_readVariables {flow : FlowDefinition} {data : Json}
    {items vars : List (Text × Text)} {observed : Option Json} {outcome : ValidationOutcome}
    (h : readVariables flow data items vars observed = .error outcome) :
    outcome.outcome = .INCONCLUSIVE := by
  induction items generalizing vars observed with
  | nil => cases h
  | cons item rest ih =>
    obtain ⟨var, key⟩ := item
    rw [readVariables] at h
    split at h
    · rw [← Except.error.inj h]
    · rw [← Except.error.inj h]
    · exact ih h

omit u in
/-- An entry of the document read from a text is an entry of the decoded document. -/
theorem loads_of_loadsOrEmpty {text key : Text} {fields : Dict} {value : Json}
    (h : loadsOrEmpty text = .ok (.obj fields)) (hget : fields.get? key = some value) :
    lib.loads text = .ok (.obj fields) := by
  rw [loadsOrEmpty] at h
  split at h
  · obtain rfl : [] = fields := Json.obj.inj (Except.ok.inj h)
    cases hget
  · obtain rfl : [] = fields := Json.obj.inj (Except.ok.inj h)
    cases hget
  · exact h

omit u in
theorem returns_judgeObserved (flow : FlowDefinition) (observed : Option Json) :
    Returns (judgeObserved flow observed) fun _ o ↦ o.outcome = .CONFIRMED →
      ∃ value numeric, observed = some value ∧ lib.float value = .ok numeric ∧
        numeric.gt flow.invariant_max = true := by
  rw [judgeObserved]
  split
  · exact returns_pure.2 nofun
  · exact returns_pure.2 nofun
  · exact returns_pure.2 nofun
  · exact returns_throw
  next numeric hobserved =>
    obtain ⟨value, hvalue, hfloat⟩ := Option.map_eq_some_iff.1 hobserved
    dsimp only
    split
    next hgt => exact returns_pure.2 fun _ ↦ ⟨value, numeric, hvalue, hfloat, hgt⟩
    next => exact returns_pure.2 nofun

/-- **The steps of a flow.** What is judged at the end was observed before, or in a response to one of
the steps. -/
theorem returns_runSteps {flow : FlowDefinition} {origin : Json} {steps : List FlowStep}
    (hsteps : ∀ step ∈ steps, step ∈ flow.steps) (vars : List (Text × Text))
    (observed : Option Json) :
    Returns (runSteps flow origin steps vars observed) fun log o ↦ o.outcome = .CONFIRMED →
      ∃ value numeric, (observed = some value ∨ ObservedIn flow log value) ∧
        lib.float value = .ok numeric ∧ numeric.gt flow.invariant_max = true := by
  induction steps generalizing vars observed with
  | nil =>
    refine (returns_judgeObserved flow observed).mono fun _ o h ho ↦ ?_
    obtain ⟨value, numeric, hvalue, hjudged⟩ := h ho
    exact ⟨value, numeric, .inl hvalue, hjudged⟩
  | cons step rest ih =>
    rw [runSteps, returns_bind, returns_ofExcept]
    intro path _
    rw [returns_bind, returns_ofExcept]
    intro url _
    rw [returns_bind, returns_request]
    intro resp
    split
    · exact returns_pure.2 nofun
    rw [returns_bind, returns_ofExcept]
    intro data hdata
    split
    next outcome hread =>
      refine returns_pure.2 fun ho ↦ ?_
      rw [outcome_of_readVariables hread] at ho
      cases ho
    next vars' observed' hread =>
      have hrest := ih (fun s hs ↦ hsteps s (List.mem_cons_of_mem _ hs)) vars' observed'
      refine hrest.mono fun log o h ho ↦ ?_
      obtain ⟨value, numeric, hvalue, hjudged⟩ := h ho
      refine ⟨value, numeric, ?_, hjudged⟩
      rcases hvalue with hobs | ⟨q, r, fields, key, hmem, hin⟩
      · -- the value was there when this step was done: from before, or from its response
        rcases observed_of_readVariables hread with hsame | ⟨fields, key, value', rfl, hget, hnew, hkey⟩
        · exact .inl (hsame ▸ hobs)
        · obtain rfl : value' = value := Option.some.inj (hnew.symm.trans hobs)
          exact .inr ⟨_, resp, fields, key, List.mem_cons_self, loads_of_loadsOrEmpty hdata hget, hget,
            step, hsteps step List.mem_cons_self, hkey⟩
      · exact .inr ⟨q, r, fields, key, List.mem_cons_of_mem _ hmem, hin⟩

theorem returns_validate_business_flow (repro : Dict) :
    Returns (_validate_business_flow repro) fun log o ↦
      o.outcome = .CONFIRMED → InvariantViolated repro log := by
  rw [_validate_business_flow]
  split
  · exact returns_pure.2 nofun
  next flow hflow =>
  split
  · exact returns_pure.2 nofun
  refine (returns_runSteps (fun _ h ↦ h) [] none).mono fun log o h ho ↦ ?_
  obtain ⟨value, numeric, hvalue, hjudged⟩ := h ho
  have hnamed := List.find?_some hflow
  exact ⟨flow, List.mem_of_find?_eq_some hflow, hnamed, value, numeric,
    hvalue.resolve_left nofun, hjudged⟩

end

/-! ### Redirects -/

section

variable [u : UnicodeTables]

theorem pointsTo_iff {location : Text} {payload : Json} :
    pointsTo location payload = .ok true ↔ location ≠ [] ∧
      ∃ host, hostnameOf (.str location) = .ok host ∧ hostnameOf payload = .ok host := by
  rw [pointsTo]
  split
  next hloc => exact iff_of_false nofun fun h ↦ h.1 hloc
  next hloc =>
    cases hl : hostnameOf (.str location) with
    | error exc => exact iff_of_false nofun fun ⟨_, _, h, _⟩ ↦ nomatch h
    | ok host =>
      cases hp : hostnameOf payload with
      | error exc => exact iff_of_false nofun fun ⟨_, _, _, h⟩ ↦ nomatch h
      | ok host' =>
        show Except.ok (decide (host = host')) = Except.ok true ↔ _
        rw [Except.ok.injEq, decide_eq_true_iff]
        constructor
        · rintro rfl
          exact ⟨hloc, host, rfl, rfl⟩
        · rintro ⟨-, h, hh, hh'⟩
          exact (Except.ok.inj hh).trans (Except.ok.inj hh').symm

theorem redirectMisread_singleton {repro : Dict} {query : Query} {answer : Answer} :
    RedirectMisread repro [(query, answer)] ↔
      RedirectMisread.Answer (repro.getD "payload" (.text "")) answer := by
  constructor
  · rintro ⟨_, a, hlog, ha⟩
    obtain ⟨-, rfl⟩ := Prod.mk.inj (List.singleton_inj.1 hlog)
    exact ha
  · exact fun ha ↦ ⟨query, answer, rfl, ha⟩

/-- The answers to a sent payload that show a redirect to its host. -/
theorem redirectToPayload_singleton {repro : Dict} {query : Query} {answer : Answer}
    (hq : query.Carries [(repro.get "param", repro.getD "payload" (.text ""))]) :
    RedirectToPayload repro [(query, answer)] ↔ ∃ resp host, answer = .ok resp ∧
      resp.header "location" ≠ [] ∧ hostnameOf (.str (resp.header "location")) = .ok (some host) ∧
      hostnameOf (repro.getD "payload" (.text "")) = .ok (some host) := by
  constructor
  · rintro ⟨resp, host, ⟨_, hmem, -⟩, hobserved⟩
    exact ⟨resp, host, (Prod.mk.inj (List.mem_singleton.1 hmem)).2.symm, hobserved⟩
  · rintro ⟨resp, host, rfl, hobserved⟩
    exact ⟨resp, host, ⟨query, List.mem_cons_self, hq⟩, hobserved⟩

/-- A location that points to the payload shows what was to be observed, unless neither has a host. -/
theorem observed_iff_of_pointsTo {repro : Dict} {query : Query} {resp : GuardedResponse} {found : Bool}
    (hq : query.Carries [(repro.get "param", repro.getD "payload" (.text ""))])
    (h : pointsTo (resp.header "location") (repro.getD "payload" (.text "")) = .ok found) :
    (found = true → RedirectToPayload repro [(query, .ok resp)]) ↔
      ¬RedirectMisread repro [(query, .ok resp)] := by
  have hpoints := @pointsTo_iff _ (resp.header "location") (repro.getD "payload" (.text ""))
  rw [h] at hpoints
  rw [redirectMisread_singleton, redirectToPayload_singleton hq, RedirectMisread.Answer]
  cases found with
  | false =>
    refine iff_of_true nofun fun ⟨hloc, hl, hp⟩ ↦ ?_
    cases hpoints.2 ⟨hloc, none, hl, hp⟩
  | true =>
    obtain ⟨hloc, host, hl, hp⟩ := hpoints.1 rfl
    rw [hl, hp]
    cases host with
    | none =>
      refine iff_of_false (fun hshown ↦ ?_) (not_not.2 ⟨hloc, rfl, rfl⟩)
      obtain ⟨_, _, _, _, _, hpayload⟩ := hshown rfl
      cases hpayload
    | some host =>
      exact iff_of_true (fun _ ↦ ⟨resp, host, rfl, hloc, hl, rfl⟩) fun hmis ↦ nomatch hmis.2.1

/-- **Redirects.** The two programs are wrong in the branches of `RedirectMisread`, and in these only. -/
theorem reads_openRedirect {α : Type} {positive : α → Prop} {blocked : α}
    {pointed absent : GuardedResponse → α} (hblocked : positive blocked)
    (hpointed : ∀ resp, positive (pointed resp)) (habsent : ∀ resp, ¬positive (absent resp))
    (repro : Dict) :
    Reads positive (openRedirect blocked pointed absent repro) (RedirectToPayload repro)
      (RedirectMisread repro) := by
  rw [Reads, openRedirect, always_run_bind, always_run_ofExcept]
  cases ho : override (repro.get "param") (repro.getD "payload" (.text "")) with
  | error exc =>
    rintro ⟨_, _, hlog, -⟩
    cases hlog
  | ok o =>
    dsimp only
    rw [always_run_bind, always_run_attempt, always_run_request]
    intro answer
    have hq : Query.Carries { url := repro.get "url", params := some o, max_redirects := 0 }
        [(repro.get "param", repro.getD "payload" (.text ""))] :=
      .inl (congrArg some (eq_of_override ho))
    dsimp only [List.nil_append, List.cons_append]
    split
    next reason code details =>
      -- no response was received, so nothing was observed
      rw [always_run_pure]
      dsimp only
      rw [redirectToPayload_singleton hq, redirectMisread_singleton]
      refine iff_of_false (fun h ↦ ?_) (not_not.2 trivial)
      obtain ⟨_, _, hresp, -⟩ := h hblocked
      cases hresp
    next exc hother =>
      rw [always_run_throw, redirectMisread_singleton]
      intro hmis
      rw [RedirectMisread.Answer] at hmis
      · exact hmis
      · exact hother
    next resp =>
      rw [always_run_bind, always_run_ofExcept]
      cases hpt : pointsTo (resp.header "location") (repro.getD "payload" (.text "")) with
      | error exc =>
        dsimp only
        rw [redirectMisread_singleton]
        rintro ⟨hloc, hl, hp⟩
        have hok := pointsTo_iff.2 ⟨hloc, none, hl, hp⟩
        rw [hpt] at hok
        cases hok
      | ok found =>
        have hobserved := observed_iff_of_pointsTo hq hpt
        cases found with
        | false => exact iff_of_true (fun h ↦ absurd h (habsent resp)) (hobserved.1 nofun)
        | true => exact (forall_prop_of_true (hpointed resp)).trans <|
            (forall_prop_of_true rfl).symm.trans hobserved

/-! ### Headers -/

theorem headerMisread_singleton {repro : Dict} {query : Query} {answer : Answer} :
    HeaderMisread repro [(query, answer)] ↔ (repro.get "url").truthy = false ∨
      ∃ resp, answer = .ok resp ∧ ¬HeaderFact repro resp := by
  refine or_congr Iff.rfl ⟨?_, ?_⟩
  · rintro ⟨_, resp, hlog, hfact⟩
    exact ⟨resp, (Prod.mk.inj (List.singleton_inj.1 hlog)).2, hfact⟩
  · rintro ⟨resp, rfl, hfact⟩
    exact ⟨query, resp, rfl, hfact⟩

/-- With a URL, an exception is never misread. -/
theorem not_headerMisread_of_raised {repro : Dict} {query : Query} {exc : Raised}
    (hurl : (repro.get "url").truthy = true) : ¬HeaderMisread repro [(query, .error exc)] := by
  rw [headerMisread_singleton, hurl]
  rintro (h | ⟨_, h, -⟩)
  · cases h
  · cases h

/-- With a URL, a response is misread unless it shows what the recipe records. -/
theorem headerObserved_iff {repro : Dict} {query : Query} {resp : GuardedResponse}
    (hurl : (repro.get "url").truthy = true) :
    HeaderObserved repro [(query, .ok resp)] ↔ ¬HeaderMisread repro [(query, .ok resp)] := by
  rw [headerMisread_singleton, hurl]
  constructor
  · rintro ⟨_, r, hmem, hfact⟩ (h | ⟨r', hr', hnot⟩)
    · cases h
    · obtain rfl : r = r' :=
        Except.ok.inj ((Prod.mk.inj (List.mem_singleton.1 hmem)).2.trans hr')
      exact hnot hfact
  · exact fun h ↦ ⟨query, resp, List.mem_cons_self, by_contra fun hnot ↦ h (.inr ⟨resp, rfl, hnot⟩)⟩

/-- Without a URL, nothing is asked. -/
theorem not_headerObserved_nil {repro : Dict} : ¬HeaderObserved repro [] := by
  rintro ⟨_, _, hmem, -⟩
  cases hmem

theorem reads_validate_headers (repro : Dict) :
    Reads (·.outcome = .CONFIRMED) (_validate_headers repro) (HeaderObserved repro)
      (HeaderMisread repro) := by
  rw [Reads, _validate_headers]
  split
  next hurl =>
    rw [Bool.not_eq_true'] at hurl
    exact iff_of_false (fun h ↦ not_headerObserved_nil (h rfl)) (not_not.2 (.inl hurl))
  next hurl =>
    rw [Bool.not_eq_true', Bool.not_eq_false] at hurl
    rw [always_run_bind, always_run_attempt, always_run_request]
    intro answer
    dsimp only [List.nil_append, List.cons_append]
    split
    · exact iff_of_true nofun (not_headerMisread_of_raised hurl)
    · exact not_headerMisread_of_raised hurl
    · exact (forall_prop_of_true rfl).trans (headerObserved_iff hurl)

/-! ### Declarative recipes -/

variable [lib : StandardLibrary]

/-- The header branch of the declarative validator. -/
theorem reads_declarative_header {repro : Dict} {d : HeaderDetector}
    (hd : Detector.ofRecipe repro = some (.header d)) :
    Reads (·.outcome = .CONFIRMED) (_validate_declarative repro) (HeaderObserved repro)
      (HeaderMisread repro) := by
  rw [Reads, _validate_declarative, hd]
  dsimp only
  split
  next hurl =>
    rw [Bool.not_eq_true'] at hurl
    exact iff_of_false (fun h ↦ not_headerObserved_nil (h rfl)) (not_not.2 (.inl hurl))
  next hurl =>
    rw [Bool.not_eq_true', Bool.not_eq_false] at hurl
    rw [always_run_bind]
    refine always_sendOverrides (fun _ ↦ ?_) fun query o answer _ _ ↦ ?_
    · rintro (h | ⟨_, _, h, -⟩)
      · rw [hurl] at h
        cases h
      · cases h
    cases answer with
    | error exc => exact not_headerMisread_of_raised hurl
    | ok resp => exact (forall_prop_of_true rfl).trans (headerObserved_iff hurl)

/-- The other branches are never wrong. -/
theorem returns_validate_declarative {repro : Dict} (hd : ∀ d, Detector.ofRecipe repro ≠ some (.header d)) :
    Returns (_validate_declarative repro) fun log o ↦ o.outcome = .CONFIRMED →
      ∃ d, Detector.ofRecipe repro = some d ∧ d.Detects repro log := by
  rw [_validate_declarative]
  dsimp only
  split
  next hdetector =>
    rw [returns_bind, returns_ofExcept]
    intro trigger htrigger
    refine returns_probe fun q resp hq ↦ ?_
    split
    next hfound =>
      exact returns_pure.2 fun _ ↦ ⟨_, hdetector, resp, trigger, ⟨q, by simp, hq⟩, htrigger, hfound⟩
    next => exact returns_pure.2 nofun
  next hdetector =>
    rw [returns_bind, returns_ofExcept]
    intro rx hrx
    refine returns_probe fun q resp hq ↦ ?_
    split
    next hfound =>
      cases rx with
      | none => cases hfound
      | some pattern =>
        exact returns_pure.2 fun _ ↦ ⟨_, hdetector, resp, pattern, ⟨q, by simp, hq⟩, hrx, hfound⟩
    next => exact returns_pure.2 nofun
  next hdetector =>
    refine returns_probe fun q resp hq ↦ ?_
    rw [returns_bind, returns_ofExcept]
    intro raw hraw
    have hpayload : repro.getD "payload" (.text "") = .str raw := by
      cases hp : repro.getD "payload" (.text "") <;> rw [hp] at hraw <;>
        first | rw [Except.ok.inj hraw] | cases hraw
    split
    next hfound =>
      split
      next => exact returns_pure.2 nofun
      next hrender =>
        refine returns_pure.2 fun _ ↦ ⟨_, hdetector, resp, raw, ⟨q, by simp, ?_⟩, hpayload,
          hfound.1.1, hfound.1.2, hfound.2, by simpa using hrender⟩
        rw [← hpayload]
        exact hq
    next => exact returns_pure.2 nofun
  next d hdetector => exact absurd hdetector (hd d)
  next => exact returns_pure.2 nofun

end

/-! ### The verdicts -/

section

variable [u : UnicodeTables] [w : WordTables] [lib : StandardLibrary]

/-- The validators of the built-in classes. -/
theorem Validation.Validator.reads (v : Validator) (repro : Dict) :
    Reads (·.outcome = .CONFIRMED) (v.validate repro) (v.Detects repro) (v.Misreads repro) := by
  cases v with
  | sqli => exact .of_returns (returns_validate_sqli repro)
  | xss => exact .of_returns (returns_validate_xss repro)
  | open_redirect =>
    refine reads_openRedirect ?_ ?_ ?_ repro
    · rfl
    · exact fun _ ↦ rfl
    · exact fun _ h ↦ nomatch h
  | headers => exact reads_validate_headers repro
  | business_logic => exact .of_returns (returns_validate_business_logic repro)
  | business_flow => exact .of_returns (returns_validate_business_flow repro)
  | prompt_injection => exact .of_returns (returns_validate_prompt_injection repro)

omit w in
theorem reads_validate_declarative (repro : Dict) :
    Reads (·.outcome = .CONFIRMED) (_validate_declarative repro)
      (fun log ↦ ∃ d, Detector.ofRecipe repro = some d ∧ d.Detects repro log)
      fun log ↦ (∃ d, Detector.ofRecipe repro = some (.header d)) ∧ HeaderMisread repro log := by
  by_cases hheader : ∃ d, Detector.ofRecipe repro = some (.header d)
  · obtain ⟨d, hd⟩ := hheader
    refine (reads_declarative_header hd).congr (fun log ↦ ?_) fun log ↦ ?_
    · constructor
      · exact fun h ↦ ⟨_, hd, h⟩
      · rintro ⟨d', hd', h⟩
        obtain rfl : .header d = d' := Option.some.inj (hd.symm.trans hd')
        exact h
    · exact (and_iff_right ⟨d, hd⟩).symm
  · refine (Reads.of_returns (returns_validate_declarative fun d hd ↦ hheader ⟨d, hd⟩)).congr
      (fun _ ↦ Iff.rfl) fun log ↦ ?_
    exact iff_of_false not_false fun h ↦ hheader h.1

omit u w lib in
/-- A recipe whose detector is known names it. -/
theorem truthy_of_ofRecipe {repro : Dict} {d : Detector} (h : Detector.ofRecipe repro = some d) :
    (repro.get "detector").truthy = true := by
  rw [Detector.ofRecipe] at h
  split at h
  next name hname =>
    rw [hname, Json.truthy]
    cases name with
    | nil => cases h
    | cons => rfl
  next => cases h

theorem reads_validate_dispatched {check_class : String} {repro : Dict} (sessions : List AuthSession)
    (hne : repro.isEmpty = false) :
    Reads (·.outcome = .CONFIRMED) (Validation.dispatched check_class repro sessions)
      (Validation.Detects check_class repro) (Validation.Misreads check_class repro) := by
  rw [Validation.dispatched]
  split
  next hbola =>
    refine (Reads.of_returns (returns_validate_bola repro sessions)).congr (fun log ↦ ?_) fun log ↦ ?_
    · rw [Validation.Detects, if_pos hbola]
    · exact iff_of_false not_false fun h ↦ h.2.1 hbola
  next hbola =>
    cases hclass : dispatch.lookup check_class with
    | some validator =>
      refine (validator.reads repro).congr (fun log ↦ ?_) fun log ↦ ?_
      · rw [Validation.Detects, if_neg hbola, hclass]
      · rw [Validation.Misreads, hclass]
        exact ⟨fun h ↦ ⟨hne, hbola, h⟩, fun h ↦ h.2.2⟩
    | none =>
      have hdetects : ∀ log, Validation.Detects check_class repro log ↔
          ∃ d, Detector.ofRecipe repro = some d ∧ d.Detects repro log := by
        intro log
        rw [Validation.Detects, if_neg hbola, hclass]
      have hmisreads : ∀ log, Validation.Misreads check_class repro log ↔
          (∃ d, Detector.ofRecipe repro = some (.header d)) ∧ HeaderMisread repro log := by
        intro log
        rw [Validation.Misreads, hclass]
        exact ⟨fun h ↦ h.2.2, fun h ↦ ⟨hne, hbola, h⟩⟩
      dsimp only
      split
      · exact (reads_validate_declarative repro).congr (fun log ↦ (hdetects log).symm)
          fun log ↦ (hmisreads log).symm
      next hdetector =>
        refine iff_of_true nofun fun h ↦ ?_
        obtain ⟨⟨d, hd⟩, -⟩ := (hmisreads _).1 h
        exact hdetector (truthy_of_ofRecipe hd)

/-- **Validation.** A positive verdict is what was to be observed exactly if nothing was misread. -/
theorem returns_validate_finding (check_class : String) (repro : Dict) (sessions : List AuthSession) :
    Returns (validate_finding check_class repro sessions) fun log o ↦
      (o.outcome = .CONFIRMED → Validation.Detects check_class repro log) ↔
        ¬Validation.Misreads check_class repro log := by
  rw [validate_finding]
  split
  next hempty =>
    refine returns_pure.2 (iff_of_true nofun fun h ↦ ?_)
    have hnonempty := h.1
    rw [hempty] at hnonempty
    cases hnonempty
  next hempty =>
    rw [returns_bind, returns_attempt]
    refine Always.mono (reads_validate_dispatched sessions (Bool.not_eq_true _ ▸ hempty)) fun log x hx ↦ ?_
    split
    · refine returns_pure.2 ?_
      rw [List.append_nil]
      exact hx
    · refine returns_pure.2 ?_
      rw [List.append_nil]
      exact iff_of_true nofun hx
    · refine returns_pure.2 ?_
      rw [List.append_nil]
      exact iff_of_true nofun hx
    · exact returns_throw

omit w in
/-- The runners: each with the observation of its class, and only the redirect runner misreads. -/
theorem Regression.Runner.reads (runner : Regression.Runner) (repro : Dict) :
    Reads (·.status = .still_vulnerable) (runner.run repro) (runner.Detects repro)
      fun log ↦ runner = .open_redirect ∧ RedirectMisread repro log := by
  cases runner with
  | sqli =>
    exact (Reads.of_returns (returns_regress_sqli repro)).congr (fun _ ↦ Iff.rfl) fun _ ↦
      iff_of_false not_false fun h ↦ nomatch h.1
  | xss =>
    exact (Reads.of_returns (returns_regress_xss repro)).congr (fun _ ↦ Iff.rfl) fun _ ↦
      iff_of_false not_false fun h ↦ nomatch h.1
  | open_redirect =>
    refine Reads.congr (reads_openRedirect ?_ ?_ ?_ repro) (fun _ ↦ Iff.rfl) fun _ ↦
      (and_iff_right rfl).symm
    · rfl
    · exact fun _ ↦ rfl
    · exact fun _ h ↦ nomatch h
  | headers =>
    -- the runner never decides
    have hreturns : Returns (Regression._regress_headers repro) fun log r ↦
        r.status = .still_vulnerable → HeaderObserved repro log := by
      rw [Regression._regress_headers]
      split
      · exact returns_pure.2 nofun
      · rw [returns_bind, returns_request]
        exact fun resp ↦ returns_pure.2 nofun
    exact (Reads.of_returns hreturns).congr (fun _ ↦ Iff.rfl) fun _ ↦
      iff_of_false not_false fun h ↦ nomatch h.1

omit w in
theorem reads_regression_dispatched (definition : Dict) :
    Reads (·.status = .still_vulnerable) (Regression.dispatched definition)
      (Regression.Detects definition) (Regression.Misreads definition) := by
  rw [Regression.dispatched]
  cases hrunner : Regression.runnerOf (definition.get "check_class") with
  | some runner =>
    dsimp only
    rw [Reads, always_run_bind, always_run_ofExcept]
    cases hrepro : definition.getD "reproduction" (.obj []) with
    | obj repro =>
      refine (runner.reads repro).congr (fun log ↦ ?_) fun log ↦ ?_
      · rw [Regression.Detects, hrunner, hrepro]
        constructor
        · exact fun h ↦ ⟨runner, repro, rfl, rfl, h⟩
        · rintro ⟨_, _, ⟨⟩, ⟨⟩, h⟩
          exact h
      · rw [Regression.Misreads, hrunner, hrepro, Option.some.injEq]
        refine and_congr_right fun _ ↦ ⟨fun h ↦ ⟨repro, rfl, h⟩, ?_⟩
        rintro ⟨_, ⟨⟩, h⟩
        exact h
    | _ =>
      rintro ⟨-, _, h, -⟩
      rw [hrepro] at h
      cases h
  | none =>
    have hmisreads : ∀ log, ¬Regression.Misreads definition log := by
      rintro log ⟨h, -⟩
      rw [hrunner] at h
      cases h
    dsimp only
    split
    · exact iff_of_true nofun (hmisreads _)
    · exact iff_of_true nofun (hmisreads _)

omit w in
/-- **Regression.** The same of a regression test. -/
theorem returns_run_regression (definition : Dict) :
    Returns (Regression.run_regression definition) fun log r ↦
      (r.status = .still_vulnerable → Regression.Detects definition log) ↔
        ¬Regression.Misreads definition log := by
  rw [Regression.run_regression, returns_bind, returns_attempt]
  refine Always.mono (reads_regression_dispatched definition) fun log x hx ↦ ?_
  split
  · refine returns_pure.2 ?_
    rw [List.append_nil]
    exact hx
  · refine returns_pure.2 ?_
    rw [List.append_nil]
    exact iff_of_true nofun hx
  · refine returns_pure.2 ?_
    rw [List.append_nil]
    exact iff_of_true nofun hx
  · exact returns_throw

/-! ### What was observed was received -/

omit u w lib in
theorem received_of_mem {log : List Exchange} {query : Query} {resp : GuardedResponse}
    (h : (query, .ok resp) ∈ log) : Received log := ⟨query, resp, h⟩

omit u w in
theorem SqlInjection.received {repro : Dict} {log : List Exchange} (h : SqlInjection repro log) :
    Received log := by
  rcases h with ⟨_, _, hprobed, -⟩ | ⟨_, _, _, hprobed, -⟩
  · exact hprobed.received
  · exact hprobed.received

omit w lib in
theorem UnescapedReflection.received {repro : Dict} {log : List Exchange}
    (h : UnescapedReflection repro log) : Received log := by
  obtain ⟨_, hprobed, -⟩ := h
  exact hprobed.received

omit w lib in
theorem RedirectToPayload.received {repro : Dict} {log : List Exchange}
    (h : RedirectToPayload repro log) : Received log := by
  obtain ⟨_, _, hprobed, -⟩ := h
  exact hprobed.received

omit w lib in
theorem HeaderObserved.received {repro : Dict} {log : List Exchange} (h : HeaderObserved repro log) :
    Received log := by
  obtain ⟨_, _, hmem, -⟩ := h
  exact received_of_mem hmem

theorem Validation.Validator.received {v : Validator} {repro : Dict} {log : List Exchange}
    (h : v.Detects repro log) : Received log := by
  cases v with
  | sqli => exact SqlInjection.received h
  | xss => exact UnescapedReflection.received h
  | open_redirect => exact RedirectToPayload.received h
  | headers => exact HeaderObserved.received h
  | business_logic =>
    obtain ⟨_, _, hprobed, -⟩ := h
    exact hprobed.received
  | business_flow =>
    obtain ⟨_, _, _, _, _, ⟨_, _, _, _, hmem, -⟩, -⟩ := h
    exact received_of_mem hmem
  | prompt_injection =>
    obtain ⟨_, _, hprobed, -⟩ := h
    exact hprobed.received

omit w in
theorem Validation.Detector.received {d : Detector} {repro : Dict} {log : List Exchange}
    (h : d.Detects repro log) : Received log := by
  cases d with
  | status_code =>
    obtain ⟨_, _, hprobed, -⟩ := h
    exact hprobed.received
  | error_signature =>
    obtain ⟨_, _, hprobed, -⟩ := h
    exact hprobed.received
  | reflection =>
    obtain ⟨_, _, hprobed, -⟩ := h
    exact hprobed.received
  | header _ => exact HeaderObserved.received h

theorem Validation.received_of_detects {check_class : String} {repro : Dict} {log : List Exchange}
    (h : Validation.Detects check_class repro log) : Received log := by
  rw [Validation.Detects] at h
  split at h
  · obtain ⟨_, _, hmem, -⟩ := h
    exact received_of_mem hmem
  split at h
  · exact Validator.received h
  · obtain ⟨_, -, hdetects⟩ := h
    exact Detector.received hdetects

omit w in
theorem Regression.received_of_detects {definition : Dict} {log : List Exchange}
    (h : Regression.Detects definition log) : Received log := by
  obtain ⟨runner, _, -, -, hdetects⟩ := h
  cases runner with
  | sqli => exact SqlInjection.received hdetects
  | xss => exact UnescapedReflection.received hdetects
  | open_redirect => exact RedirectToPayload.received hdetects
  | headers => exact HeaderObserved.received hdetects

/-! ### In a run -/

/-- During the run, a call of the program has handed a request to the library. -/
def ProgramRun.Sends {κ α : Type} (s : ProgramRun κ α) : Prop := ∃ e ∈ s.pool.sent, e.call ∈ s.own

omit w lib in
/-- A judgement on what is observed says as much about what was sent. -/
theorem ProgramRun.judgement {κ α : Type} {cl : Client κ} {prepare : Query → Args} {pool : Pool κ}
    {program : Program α} {es : List ProgramRun.Label} {s : ProgramRun κ (Except Raised α)} {a : α}
    {positive : α → Prop} {detects misreads : List Exchange → Prop}
    (hreads : Returns program fun log a ↦ (positive a → detects log) ↔ ¬misreads log)
    (hreceived : ∀ log, detects log → Received log)
    (h : Machine.run (ProgramRun.step cl prepare) (.start pool program) es = some s)
    (hresult : s.result? = some (.ok a)) :
    (positive a → s.Sends ∧ detects s.log) ↔ ¬misreads s.log := by
  have hjudged : (positive a → detects s.log) ↔ ¬misreads s.log :=
    always_iff.1 hreads _ _ (ProgramRun.ends h hresult) a rfl
  rw [← hjudged]
  refine forall_congr' fun _ ↦ and_iff_right_of_imp fun hdetects ↦ ?_
  obtain ⟨query, resp, hmem⟩ := hreceived _ hdetects
  exact ProgramRun.sent_of_received h hmem

/-- **Positive verdicts.** In every run of a validation or of a regression test, from any state of the
client and against any target: a positive verdict means that a request was sent in that call and that the
responses received in it meet the condition of the class, exactly if nothing was misread. -/
theorem verdict_sound_iff {κ : Type} (cl : Client κ) (prepare : Query → Args) (pool : Pool κ)
    (es : List ProgramRun.Label) :
    (∀ check_class repro sessions s o,
      Machine.run (ProgramRun.step cl prepare)
        (.start pool (validate_finding check_class repro sessions)) es = some s →
      s.result? = some (.ok o) →
        ((o.outcome = .CONFIRMED → s.Sends ∧ Validation.Detects check_class repro s.log) ↔
          ¬Validation.Misreads check_class repro s.log)) ∧
      ∀ definition s r,
        Machine.run (ProgramRun.step cl prepare)
          (.start pool (Regression.run_regression definition)) es = some s →
        s.result? = some (.ok r) →
          ((r.status = .still_vulnerable → s.Sends ∧ Regression.Detects definition s.log) ↔
            ¬Regression.Misreads definition s.log) := by
  constructor
  · intro check_class repro sessions s o h hresult
    exact ProgramRun.judgement (returns_validate_finding check_class repro sessions)
      (fun _ ↦ Validation.received_of_detects) h hresult
  · intro definition s r h hresult
    exact ProgramRun.judgement (returns_run_regression definition)
      (fun _ ↦ Regression.received_of_detects) h hresult

end

section

attribute [local instance] asciiTables asciiWords

/-- A library that knows literal patterns only, and decodes nothing. -/
@[reducible] def literalLibrary : StandardLibrary where
  compile _ := .ok ()
  search pattern text := Text.hasInfix pattern text
  loads _ := .error .ValueError
  float _ := .error .ValueError
  render _ := ""
  fullmatch pattern text := pattern = text
  sub _ _ text := .ok text
  int _ := .error .ValueError
  format template _ := .ok template

attribute [local instance] literalLibrary

/-- The arguments of a call, where its values are texts. -/
def plainArgs (query : Query) : Args where
  method := query.method
  url :=
    match query.url with
    | .str t => t
    | _ => []
  params := query.params.map fun params ↦ params.filterMap fun e ↦
    match e with
    | (.str name, .str value) => some (name, value)
    | _ => none
  max_redirects := query.max_redirects

/-- The recipe of a redirect finding. -/
def canaryRecipe : Dict := [
  ("method".toList, .text "GET"),
  ("url".toList, .text "https://app.example/go"),
  ("param".toList, .text "next"),
  ("payload".toList, .text "https://evil.example.net/probe"),
  ("detector".toList, .text "location_header_host") ]

def canaryDefinition : Dict :=
  Regression.build_regression_definition "open_redirect" canaryRecipe "Open redirect"

/-- A guard whose budget is used up. -/
def spentGuard : ScopeGuard where
  record := { sampleRecord with max_requests := 2 }
  requests_made := 2

/-- One call, turned down by the guard. -/
def refusedCall : List ProgramRun.Label :=
  [.calls 0 0 sampleAnswer sampleAnswer sampleAnswer, .resumes]

def refusedStep {α : Type} : ProgramRun Unit α → ProgramRun.Label → Option (ProgramRun Unit α) :=
  ProgramRun.step { httpx := referenceHttpx } plainArgs

def spentPool : Pool Unit := Pool.init spentGuard () 0

theorem refusedCall_validation : ∃ s o, Machine.run refusedStep
      (.start spentPool (validate_finding "open_redirect" canaryRecipe [])) refusedCall = some s ∧
    s.result? = some (.ok o) ∧ o.outcome = .CONFIRMED ∧ s.pool.sent = [] :=
  ⟨_, _, rfl, rfl, rfl, rfl⟩

theorem refusedCall_regression : ∃ s r, Machine.run refusedStep
      (.start spentPool (Regression.run_regression canaryDefinition)) refusedCall = some s ∧
    s.result? = some (.ok r) ∧ r.status = .still_vulnerable ∧ s.pool.sent = [] :=
  ⟨_, _, rfl, rfl, rfl, rfl⟩

theorem ProgramRun.not_sends {κ α : Type} {s : ProgramRun κ α} (h : s.pool.sent = []) : ¬s.Sends := by
  rintro ⟨e, he, -⟩
  rw [h] at he
  cases he

/-- With the budget used up, both programs are positive about a redirect and nothing is sent. -/
theorem spent_budget_confirms :
    (∃ s o, Machine.run refusedStep
        (.start spentPool (validate_finding "open_redirect" canaryRecipe [])) refusedCall = some s ∧
      s.result? = some (.ok o) ∧ ¬(o.outcome = .CONFIRMED →
        s.Sends ∧ Validation.Detects "open_redirect" canaryRecipe s.log)) ∧
    ∃ s r, Machine.run refusedStep
        (.start spentPool (Regression.run_regression canaryDefinition)) refusedCall = some s ∧
      s.result? = some (.ok r) ∧ ¬(r.status = .still_vulnerable →
        s.Sends ∧ Regression.Detects canaryDefinition s.log) := by
  obtain ⟨s, o, hs, ho, hpositive, hsent⟩ := refusedCall_validation
  obtain ⟨s', r, hs', hr, hpositive', hsent'⟩ := refusedCall_regression
  exact ⟨⟨s, o, hs, ho, fun h ↦ ProgramRun.not_sends hsent (h hpositive).1⟩,
    ⟨s', r, hs', hr, fun h ↦ ProgramRun.not_sends hsent' (h hpositive').1⟩⟩

theorem verdict_sound_spent :
    (∃ s o, Machine.run refusedStep
        (.start spentPool (validate_finding "open_redirect" canaryRecipe [])) refusedCall = some s ∧
      s.result? = some (.ok o) ∧
      ((o.outcome = .CONFIRMED →
          s.Sends ∧ Validation.Detects "open_redirect" canaryRecipe s.log) ↔
        ¬Validation.Misreads "open_redirect" canaryRecipe s.log)) ∧
    ∃ s r, Machine.run refusedStep
        (.start spentPool (Regression.run_regression canaryDefinition)) refusedCall = some s ∧
      s.result? = some (.ok r) ∧
      ((r.status = .still_vulnerable → s.Sends ∧ Regression.Detects canaryDefinition s.log) ↔
        ¬Regression.Misreads canaryDefinition s.log) := by
  obtain ⟨s, o, hs, ho, -⟩ := refusedCall_validation
  obtain ⟨s', r, hs', hr, -⟩ := refusedCall_regression
  exact ⟨⟨s, o, hs, ho, (verdict_sound_iff _ _ _ _).1 _ _ _ _ _ hs ho⟩,
    ⟨s', r, hs', hr, (verdict_sound_iff _ _ _ _).2 _ _ _ hs' hr⟩⟩

end

end Sentrik
