import Sentrik.Security.PoolMoves
import Sentrik.Security.ReferenceHttpx

/-!
# The testing window on the wire

A pool of calls under a wall clock. Time passes while calls are suspended (`TimedEvent.wait`) and
inside the segments between two suspensions, where the resolver blocks (`TimedEvent.event`): the
delays are the environment's, any number of them and of any length.

The code reads the clock once for a call, in front of everything else. So what decides about a hop is
how long its call has been under way: the log of hops keeps, for each request sent, the instant its
call was made and the delays the call has been through since (`Hop`).

## Main results

* `TimedPool.hops_sent`: the log of hops is the log of the pool, request by request.
* `TimedPool.inWindow_iff`: in every run, all hops are sent inside the window exactly when none was
  delayed by more than what was left of the window when its call was made.
-/

namespace Sentrik

/-- Inside the record's testing window; an end the record does not set is open. -/
structure AuthorizationRecord.InWindow (record : AuthorizationRecord) (t : ℤ) : Prop where
  started : ∀ ws, record.window_start = some ws → ws.instant ≤ t
  not_ended : ∀ we, record.window_end = some we → t ≤ we.instant

/-- An active record has its window open. -/
theorem ScopeGuard.inWindow_of_active {g : ScopeGuard} {now : ℤ}
    (h : (g.check_record_active now).allowed = true) : g.record.InWindow now := by
  rw [check_record_active] at h
  split at h
  · cases h
  split at h
  · cases h
  next hstart =>
  split at h
  · cases h
  next hend =>
  refine ⟨fun ws hws ↦ ?_, fun we hwe ↦ ?_⟩
  · rw [hws] at hstart
    simpa [Option.filter] using hstart
  · rw [hwe] at hend
    simpa [Option.filter] using hend

/-! ### What a step of the pool logs -/

/-- A new call, which the code opens with the only reading of the clock. -/
def Event.now? : Event → Option ℤ
  | .request _ now .. => some now
  | _ => none

namespace Pool

section

variable {κ : Type}

/-- Call `j` has not returned and has not raised. -/
def Live (p : Pool κ) (j : ℕ) : Prop := ∃ c, p.calls[j]? = some c ∧ c.stage.stopped = false

/-- The event makes the call numbered `j`, with the record active. -/
def Opens (p : Pool κ) (e : Event) (j : ℕ) : Prop :=
  j = p.calls.length ∧ ∃ now, e.now? = some now ∧ (p.guard.check_record_active now).allowed = true

theorem live_of_getElem? {p : Pool κ} {j : ℕ} {c : Call} (hc : p.calls[j]? = some c)
    (h : c.stage.stopped = false) : p.Live j :=
  ⟨c, hc, h⟩

theorem Live.lt_length {p : Pool κ} {j : ℕ} (h : p.Live j) : j < p.calls.length := by
  obtain ⟨c, hc, -⟩ := h
  exact (List.getElem?_eq_some_iff.1 hc).1

/-- After one call has been replaced, the live ones are the others and possibly that one. -/
theorem live_of_live_set {p p' : Pool κ} {i j : ℕ} {c' : Call} (hcalls : p'.calls = p.calls)
    (h : Live { p' with calls := p'.calls.set i c' } j) : p.Live j ∨ j = i := by
  obtain ⟨c, hc, hlive⟩ := h
  by_cases hji : j = i
  · exact Or.inr hji
  · refine Or.inl ⟨c, ?_, hlive⟩
    have hget : (p'.calls.set i c')[j]? = p'.calls[j]? := List.getElem?_set_ne (Ne.symm hji)
    rw [← hcalls, ← hget]
    exact hc

/-- After one call has been added, the live ones are the old ones and possibly that one. -/
theorem live_of_live_append {p p' : Pool κ} {j : ℕ} {c' : Call} (hcalls : p'.calls = p.calls)
    (h : Live { p' with calls := p'.calls ++ [c'] } j) :
    p.Live j ∨ j = p.calls.length ∧ c'.stage.stopped = false := by
  obtain ⟨c, hc, hlive⟩ := h
  have hc' : (p.calls ++ [c'])[j]? = some c := by rw [← hcalls]; exact hc
  rcases Nat.lt_trichotomy j p.calls.length with hlt | heq | hgt
  · rw [List.getElem?_append_left hlt] at hc'
    exact Or.inl ⟨c, hc', hlive⟩
  · subst heq
    rw [List.getElem?_concat_length] at hc'
    obtain rfl := Option.some.inj hc'
    exact Or.inr ⟨rfl, hlive⟩
  · have hnone : (p.calls ++ [c'])[j]? = none := by
      rw [List.getElem?_eq_none_iff, List.length_append, List.length_singleton]
      omega
    rw [hnone] at hc'
    cases hc'

/-- What a step leaves in the log, and which calls it leaves live. -/
structure Emits (p : Pool κ) (e : Event) (p' : Pool κ) : Prop where
  record : p'.guard.record = p.guard.record
  length : p'.calls.length = p.calls.length + e.now?.toList.length
  live : ∀ j, p'.Live j → p.Live j ∨ p.Opens e j
  sent : ∃ new, p'.sent = p.sent ++ new ∧ ∀ s ∈ new, p.Live s.call ∨ p.Opens e s.call

end

section

variable [u : UnicodeTables] {κ : Type} {cl : Client κ} {p p' : Pool κ} {i : ℕ} {c c' : Call}

/-- A send logs at most one request, of the call that sends. -/
theorem Emit.log (h : Emit cl p i c p' c') : p'.guard.record = p.guard.record ∧
    ∃ new, p'.sent = p.sent ++ new ∧ ∀ s ∈ new, s.call = i := by
  cases h with
  | fails _ same =>
    refine ⟨by rw [same.guard], [], ?_, fun s hs ↦ absurd hs List.not_mem_nil⟩
    rw [same.sent, List.append_nil]
  | sends req _ _ guard _ _ sent =>
    refine ⟨by rw [guard], [entry i c req], sent, fun s hs ↦ ?_⟩
    rw [List.mem_singleton.1 hs]
    rfl

/-- So does a call that goes on from the limiter. -/
theorem Advance.log (h : Advance cl p i c p' c') : p'.guard.record = p.guard.record ∧
    ∃ new, p'.sent = p.sent ++ new ∧ ∀ s ∈ new, s.call = i := by
  cases h with
  | waits _ _ same =>
    refine ⟨by rw [same.guard], [], ?_, fun s hs ↦ absurd hs List.not_mem_nil⟩
    rw [same.sent, List.append_nil]
  | counts _ guard sent _ _ | fails _ guard sent _ _ =>
    refine ⟨by rw [guard, ScopeGuard.note_requests_record], [], ?_,
      fun s hs ↦ absurd hs List.not_mem_nil⟩
    rw [sent, List.append_nil]
  | sends req _ _ guard _ _ sent =>
    refine ⟨by rw [guard, ScopeGuard.note_requests_record], [entry i c req], sent, fun s hs ↦ ?_⟩
    rw [List.mem_singleton.1 hs]
    rfl

omit u in
/-- An event that resumes a call makes none. -/
theorem now?_of_call? {e : Event} (h : e.call? = some i) : e.now? = none := by
  cases e <;> first | rfl | cases h

omit u in
/-- Resuming a live call: what it logs is its own. -/
theorem emits_of_resumed {e : Event} (hi : e.call? = some i) (hlive : p.Live i)
    (hcalls : p'.calls = p.calls) (hrecord : p'.guard.record = p.guard.record)
    (hsent : ∃ new, p'.sent = p.sent ++ new ∧ ∀ s ∈ new, s.call = i) :
    p.Emits e { p' with calls := p'.calls.set i c' } := by
  refine ⟨hrecord, ?_, fun j hj ↦ ?_, ?_⟩
  · rw [now?_of_call? hi, List.length_set, hcalls]
    rfl
  · rcases live_of_live_set hcalls hj with hold | rfl
    · exact Or.inl hold
    · exact Or.inl hlive
  · obtain ⟨new, hnew, hcall⟩ := hsent
    exact ⟨new, hnew, fun s hs ↦ Or.inl (by rw [hcall s hs]; exact hlive)⟩

omit u in
theorem stopped_of_acquiring {s : Stage} (h : s.acquiring = true) : s.stopped = false := by
  cases s <;> first | rfl | cases h

omit u in
theorem stopped_of_inCallback {s : Stage} (h : s.inCallback = true) : s.stopped = false := by
  cases s <;> first | rfl | cases h

/-- **What a step logs** is of a call that was live before it, or of one it makes under an active
record. -/
theorem Move.logged {e : Event} (h : Move cl p e p') : p.Emits e p' := by
  cases h with
  | aexit =>
    refine ⟨rfl, rfl, fun j hj ↦ Or.inl hj, [], ?_, fun s hs ↦ absurd hs List.not_mem_nil⟩
    exact (List.append_nil _).symm
  | refused c hargs stopped =>
    refine ⟨rfl, ?_, fun j hj ↦ ?_, [], (List.append_nil _).symm,
      fun s hs ↦ absurd hs List.not_mem_nil⟩
    · exact List.length_append
    · rcases live_of_live_append rfl hj with hold | ⟨-, hlive⟩
      · exact Or.inl hold
      · rw [stopped] at hlive
        cases hlive
  | begins c _ _ _ _ _ _ active _ _ advance =>
    obtain ⟨hrecord, new, hnew, hcall⟩ := advance.log
    refine ⟨hrecord, ?_, fun j hj ↦ ?_, new, hnew, fun s hs ↦ Or.inr ⟨hcall s hs, _, rfl, active⟩⟩
    · rw [← advance.calls_eq]
      exact List.length_append
    · rcases live_of_live_append advance.calls_eq hj with hold | ⟨heq, -⟩
      · exact Or.inl hold
      · exact Or.inr ⟨heq, _, rfl, active⟩
  | resumes hi hc acquiring advance =>
    obtain ⟨hrecord, hsent⟩ := advance.log
    exact emits_of_resumed hi (live_of_getElem? hc (stopped_of_acquiring acquiring)) advance.calls_eq
      hrecord hsent
  | emits hi hc inCallback same emit =>
    obtain ⟨hrecord, hsent⟩ := emit.log
    rw [same.sent] at hsent
    exact emits_of_resumed hi (live_of_getElem? hc (stopped_of_inCallback inCallback))
      (emit.calls_eq.trans same.calls) (hrecord.trans (by rw [same.guard])) hsent
  | hops c₁ hc sending _ _ _ _ _ _ _ same advance =>
    obtain ⟨hrecord, hsent⟩ := advance.log
    rw [same.sent] at hsent
    exact emits_of_resumed rfl (live_of_getElem? hc (by rw [sending]; rfl))
      (advance.calls_eq.trans same.calls) (hrecord.trans (by rw [same.guard])) hsent
  | stops hi hc live _ _ same =>
    refine emits_of_resumed hi (live_of_getElem? hc live) same.calls (by rw [same.guard]) ⟨[], ?_, ?_⟩
    · rw [same.sent, List.append_nil]
    · exact fun s hs ↦ absurd hs List.not_mem_nil

end

end Pool

/-! ### The pool under a clock -/

/-- When a call was made, and the delays it has been through since. -/
structure Age where
  started : ℤ
  waited : ℕ
  deriving DecidableEq, Repr

/-- A request handed to the library's `send`, with the age of its call and the reading of the clock. -/
structure Hop where
  sent : Sent
  age : Age
  sentAt : ℤ

/-- The pool, the wall clock, the age of each call, and the log of hops. -/
structure TimedPool (κ : Type) where
  pool : Pool κ
  clock : ℤ
  ages : List Age := []
  hops : List Hop := []

/-- What the environment does next: it lets time pass, or it lets the pool make a step during which
time passes. -/
inductive TimedEvent
  | wait (delay : ℕ)
  | event (e : Event) (delay : ℕ)

/-- The delays the hop's call has been through fit into what was left of the window when the call was
made. -/
def Hop.InTime (record : AuthorizationRecord) (x : Hop) : Prop :=
  ∀ we, record.window_end = some we → x.age.waited ≤ we.instant - x.age.started

namespace TimedPool

section

variable {κ : Type}

def init (guard : ScopeGuard) (store : κ) (limiter : ℚ) (clock : ℤ) : TimedPool κ where
  pool := Pool.init guard store limiter
  clock

/-- Time passes for every call. -/
def elapse (w : TimedPool κ) (delay : ℕ) : TimedPool κ := { w with
  clock := w.clock + delay
  ages := w.ages.map fun a ↦ { a with waited := a.waited + delay } }

/-- The event may make a call, whose age begins. -/
def enter (w : TimedPool κ) (e : Event) : TimedPool κ := { w with
  ages := w.ages ++ e.now?.toList.map fun now ↦ ⟨now, 0⟩ }

/-- The pool has made a step: what it has added to its log has been sent now. -/
def log (w : TimedPool κ) (pool : Pool κ) : TimedPool κ := { w with
  pool
  hops := w.hops ++ (pool.sent.drop w.pool.sent.length).map fun s ↦
    ⟨s, w.ages.getD s.call ⟨w.clock, 0⟩, w.clock⟩ }

/-! ### The invariant -/

/-- What holds in every run. -/
structure Inv (record : AuthorizationRecord) (w : TimedPool κ) : Prop where
  same : w.pool.guard.record = record
  length : w.ages.length = w.pool.calls.length
  clock : ∀ a ∈ w.ages, a.started + a.waited = w.clock
  live : ∀ j a, w.ages[j]? = some a → w.pool.Live j → record.InWindow a.started
  logged : w.hops.map Hop.sent = w.pool.sent
  hops : ∀ h ∈ w.hops, record.InWindow h.age.started ∧ h.sentAt = h.age.started + h.age.waited

variable {record : AuthorizationRecord} {w : TimedPool κ}

theorem Inv.init {guard : ScopeGuard} {store : κ} {limiter : ℚ} {clock : ℤ} :
    Inv guard.record (init guard store limiter clock) :=
  ⟨rfl, rfl, fun _ ha ↦ absurd ha List.not_mem_nil, fun _ _ ha _ ↦ absurd ha (by simp [TimedPool.init]),
    rfl, fun _ hh ↦ absurd hh List.not_mem_nil⟩

theorem getElem?_elapse {j : ℕ} {a : Age} {delay : ℕ} (h : (w.elapse delay).ages[j]? = some a) :
    ∃ b, w.ages[j]? = some b ∧ a.started = b.started := by
  have hmap : (w.ages.map fun b ↦ { b with waited := b.waited + delay })[j]? = some a := h
  rw [List.getElem?_map] at hmap
  obtain ⟨b, hb, rfl⟩ := Option.map_eq_some_iff.1 hmap
  exact ⟨b, hb, rfl⟩

/-- Time alone changes nothing but how long the calls have been under way. -/
theorem Inv.elapse (h : w.Inv record) (delay : ℕ) : (w.elapse delay).Inv record := by
  refine ⟨h.same, ?_, fun a ha ↦ ?_, fun j a ha hlive ↦ ?_, h.logged, h.hops⟩
  · show (w.ages.map _).length = w.pool.calls.length
    rw [List.length_map, h.length]
  · obtain ⟨b, hb, rfl⟩ := List.mem_map.1 ha
    have hclock := h.clock b hb
    show b.started + ((b.waited + delay : ℕ) : ℤ) = w.clock + delay
    omega
  · obtain ⟨b, hb, heq⟩ := getElem?_elapse ha
    rw [heq]
    exact h.live j b hb hlive

/-- The age of a call that the step leaves live, or sends for: it was made inside the window. -/
theorem Inv.opened (h : w.Inv record) {e : Event} {j : ℕ}
    (hj : w.pool.Live j ∨ w.pool.Opens e j) :
    ∃ a, (w.enter e).ages[j]? = some a ∧ record.InWindow a.started := by
  rcases hj with hlive | ⟨rfl, now, hmake, hactive⟩
  · have hlt : j < w.ages.length := by
      rw [h.length]
      exact hlive.lt_length
    refine ⟨w.ages[j], ?_, h.live j _ (List.getElem?_eq_getElem hlt) hlive⟩
    exact (List.getElem?_append_left hlt).trans (List.getElem?_eq_getElem hlt)
  · refine ⟨⟨now, 0⟩, ?_, ?_⟩
    · show (w.ages ++ e.now?.toList.map fun now ↦ (⟨now, 0⟩ : Age))[w.pool.calls.length]? = _
      rw [hmake, ← h.length]
      exact List.getElem?_concat_length
    · rw [← h.same]
      exact ScopeGuard.inWindow_of_active hactive

end

section

variable [u : UnicodeTables] {κ : Type}

/-- One step. A new call reads the clock before anything of it takes time. -/
def step (cl : Client κ) (w : TimedPool κ) : TimedEvent → Option (TimedPool κ)
  | .wait delay => some (w.elapse delay)
  | .event e delay =>
    if e.now?.all (· = w.clock) then
      (w.pool.step cl e).map fun pool ↦ ((w.enter e).elapse delay).log pool
    else none

variable {record : AuthorizationRecord} {cl : Client κ} {w w' : TimedPool κ}

/-- **One step.** -/
theorem Inv.step (h : w.Inv record) {e : TimedEvent} (hs : step cl w e = some w') :
    w'.Inv record := by
  cases e with
  | wait delay =>
    obtain rfl := Option.some.inj hs
    exact h.elapse delay
  | event e delay =>
    rw [TimedPool.step] at hs
    split at hs
    swap
    · cases hs
    next hall =>
    obtain ⟨pool, hpool, rfl⟩ := Option.map_eq_some_iff.1 hs
    have hnow : ∀ now, e.now? = some now → now = w.clock := by
      intro now hmake
      rw [hmake] at hall
      simpa using hall
    obtain ⟨hrecord, hlength, hlive, new, hnew, hsends⟩ := (Pool.move_of_step hpool).logged
    -- the ages while the step runs: those before, and that of the call it makes
    set v := (w.enter e).elapse delay with hv
    have hclock : ∀ a ∈ v.ages, a.started + a.waited = v.clock := by
      intro a ha
      obtain ⟨b, hb, rfl⟩ := List.mem_map.1 ha
      have hb' : b.started + b.waited = w.clock := by
        rcases List.mem_append.1 hb with hold | hmade
        · exact h.clock b hold
        · obtain ⟨now, hmake, rfl⟩ := List.mem_map.1 hmade
          have heq := hnow now (Option.mem_toList.1 hmake)
          show now + ((0 : ℕ) : ℤ) = w.clock
          omega
      show b.started + ((b.waited + delay : ℕ) : ℤ) = w.clock + delay
      omega
    have hopened : ∀ j, w.pool.Live j ∨ w.pool.Opens e j →
        ∃ a, v.ages[j]? = some a ∧ record.InWindow a.started := by
      intro j hj
      obtain ⟨a, ha, hin⟩ := h.opened hj
      refine ⟨{ a with waited := a.waited + delay }, ?_, hin⟩
      show ((w.enter e).ages.map _)[j]? = _
      rw [List.getElem?_map, ha]
      rfl
    have hadded : pool.sent.drop w.pool.sent.length = new := by
      rw [hnew, List.drop_left]
    refine ⟨hrecord.trans h.same, ?_, hclock, fun j a ha hj ↦ ?_, ?_, fun x hx ↦ ?_⟩
    · show ((w.ages ++ e.now?.toList.map _).map _).length = pool.calls.length
      rw [List.length_map, List.length_append, List.length_map, hlength, h.length]
    · obtain ⟨b, hb, hin⟩ := hopened j (hlive j hj)
      obtain rfl := Option.some.inj (hb.symm.trans ha)
      exact hin
    · show (w.hops ++ (pool.sent.drop w.pool.sent.length).map _).map Hop.sent = pool.sent
      rw [hadded, hnew, List.map_append, h.logged, List.map_map]
      exact congrArg _ (List.map_id _)
    · rcases List.mem_append.1 hx with hold | hsent
      · exact h.hops x hold
      · obtain ⟨s, hs, rfl⟩ := List.mem_map.1 hsent
        have hs' : s ∈ new := by
          rw [← hadded]
          exact hs
        obtain ⟨a, ha, hin⟩ := hopened s.call (hsends s hs')
        have hage : v.ages.getD s.call ⟨v.clock, 0⟩ = a := by
          rw [List.getD_eq_getElem?_getD, ha]
          rfl
        show record.InWindow (v.ages.getD s.call ⟨v.clock, 0⟩).started ∧
          v.clock = (v.ages.getD s.call ⟨v.clock, 0⟩).started + (v.ages.getD s.call ⟨v.clock, 0⟩).waited
        rw [hage]
        exact ⟨hin, (hclock a (List.mem_of_getElem? ha)).symm⟩

theorem Inv.run {guard : ScopeGuard} {store : κ} {limiter : ℚ} {clock : ℤ} {es : List TimedEvent}
    (h : Machine.run (TimedPool.step cl) (TimedPool.init guard store limiter clock) es = some w) :
    w.Inv guard.record :=
  Machine.inv_of_run (fun hI hs ↦ hI.step hs) h .init

/-- Every request of the pool has its hop in the log, in order. -/
theorem hops_sent {guard : ScopeGuard} {store : κ} {limiter : ℚ} {clock : ℤ} {es : List TimedEvent}
    (h : Machine.run (TimedPool.step cl) (TimedPool.init guard store limiter clock) es = some w) :
    w.hops.map Hop.sent = w.pool.sent :=
  (Inv.run h).logged

/-- **The testing window on the wire.** In every run of any number of calls over one guard, with any
delays in the limiter, the callback, the resolver, the target and between hops: all requests are sent
inside the record's window exactly when each call is still within what was left of the window at the
moment it was made. -/
theorem inWindow_iff {guard : ScopeGuard} {store : κ} {limiter : ℚ} {clock : ℤ}
    {es : List TimedEvent}
    (h : Machine.run (TimedPool.step cl) (TimedPool.init guard store limiter clock) es = some w) :
    (∀ x ∈ w.hops, guard.record.InWindow x.sentAt) ↔ ∀ x ∈ w.hops, x.InTime guard.record := by
  have hinv := Inv.run h
  refine forall₂_congr fun x hx ↦ ?_
  obtain ⟨hstarted, hsent⟩ := hinv.hops x hx
  constructor
  · rintro ⟨-, hend⟩ we hwe
    have hle := hend we hwe
    omega
  · intro hin
    refine ⟨fun ws hws ↦ ?_, fun we hwe ↦ ?_⟩
    · -- the call was made inside the window, and time only goes on
      have hle := hstarted.started ws hws
      omega
    · have hle := hin we hwe
      omega

end

end TimedPool

/-! ### A window that ends -/

section

attribute [local instance] asciiTables

/-- The sample authorization, until ten seconds after the epoch. -/
def windowRecord : AuthorizationRecord := { sampleRecord with
  window_start := some ⟨0, "1970-01-01T00:00:00+00:00"⟩
  window_end := some ⟨10, "1970-01-01T00:00:10+00:00"⟩ }

/-- A client on the reference library, with no callback and no sandbox. -/
def windowClient : Client Unit where
  httpx := referenceHttpx

/-- A call made at second 8 whose target takes `delay` seconds to answer with a redirect. -/
def slowRedirect (delay : ℕ) : List TimedEvent := [
  .event (.request { method := "GET".toList, url := "https://app.example/a".toList } 8 0 sampleAnswer
    sampleAnswer sampleAnswer) 0,
  .wait delay,
  .event (.responded 0 {
    status_code := 302
    headers := [("location".toList, "https://app.example/b".toList)] } 1 sampleAnswer) 0 ]

/-- Where the run of such a call ends. -/
def slowRedirectRun (delay : ℕ) : Option (TimedPool Unit) :=
  Machine.run (TimedPool.step windowClient)
    (TimedPool.init { record := windowRecord } () 0 8) (slowRedirect delay)

theorem slowRedirectRun_late :
    (slowRedirectRun 60).map (fun w ↦ w.hops.map Hop.sentAt) = some [8, 68] := by
  decide +kernel

theorem slowRedirectRun_prompt :
    (slowRedirectRun 2).map (fun w ↦ w.hops.map fun x ↦ (x.sentAt, x.age)) =
      some [(8, ⟨8, 0⟩), (10, ⟨8, 2⟩)] := by
  decide +kernel

/-- A redirect that is answered a minute later is followed a minute later, window or not. -/
theorem lateHop_not_inWindow :
    ¬∀ (guard : ScopeGuard) (ws we : DateTime) (es : List TimedEvent) (w : TimedPool Unit),
      guard.record.window_start = some ws → guard.record.window_end = some we →
        Machine.run (TimedPool.step windowClient) (TimedPool.init guard () 0 8) es = some w →
          ∀ x ∈ w.hops, ws.instant ≤ x.sentAt ∧ x.sentAt ≤ we.instant := by
  intro h
  obtain ⟨w, hrun, hsent⟩ := Option.map_eq_some_iff.1 slowRedirectRun_late
  have hmem : (68 : ℤ) ∈ w.hops.map Hop.sentAt := by
    rw [hsent]
    decide
  obtain ⟨x, hx, hat⟩ := List.mem_map.1 hmem
  have hle := (h _ _ _ _ w rfl rfl hrun x hx).2
  rw [hat] at hle
  exact absurd hle (by decide)

theorem inWindow_iff_prompt :
    ∃ w, slowRedirectRun 2 = some w ∧ w.hops.length = 2 ∧
      (∀ x ∈ w.hops, windowRecord.InWindow x.sentAt) ∧
      ((∀ x ∈ w.hops, windowRecord.InWindow x.sentAt) ↔ ∀ x ∈ w.hops, x.InTime windowRecord) := by
  obtain ⟨w, hrun, hages⟩ := Option.map_eq_some_iff.1 slowRedirectRun_prompt
  have hiff := TimedPool.inWindow_iff hrun
  refine ⟨w, hrun, ?_, hiff.2 fun x hx we hwe ↦ ?_, hiff⟩
  · have hlen := congrArg List.length hages
    rwa [List.length_map] at hlen
  · have hmem : (x.sentAt, x.age) ∈ [((8 : ℤ), (⟨8, 0⟩ : Age)), (10, ⟨8, 2⟩)] := by
      rw [← hages]
      exact List.mem_map_of_mem hx
    obtain rfl := Option.some.inj hwe
    simp only [List.mem_cons, Prod.mk.injEq, List.not_mem_nil, or_false] at hmem
    rcases hmem with ⟨-, hage⟩ | ⟨-, hage⟩
    · rw [hage]
      decide
    · rw [hage]
      decide

end

end Sentrik
