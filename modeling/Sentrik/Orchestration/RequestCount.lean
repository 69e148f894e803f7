import Sentrik.Orchestration.Lifetime

/-!
# The stored request counter

The engine stores the running request counter from the accounting callback, at every tenth count only. A
redirect hop is counted like any request, but **without calling the callback**: a multiple of ten that is
reached on a hop is skipped, and nothing is stored until a first hop falls on one of the later multiples.

`entry_of_step` is what one step does to counter and store. In a sequential run the store is a multiple of ten
at least, or the start value, as long as no multiple of ten is skipped (`Saved`), and then it is less than ten
behind (`count_of_punctual`).

A callback that is still writing has its request counted and not sent. There the counter can be ten ahead; what
was sent is not.
-/

namespace Sentrik

/-- In the callback, which is about to store its count. -/
def Stage.saving : Stage → Bool
  | .callback n => n % 10 = 0
  | _ => false

namespace Pool

section

variable {κ : Type}

/-- The counter of the guard. -/
def made (p : Pool κ) : ℕ := p.guard.requests_made

/-- The counter and the store are as given. -/
structure Shows (made : ℕ) (store : κ) (p : Pool κ) : Prop where
  made : p.made = made
  store : p.store = store

/-- How a call goes on from the limiter, in counter and store: it waits, or it is counted and calls the
callback, or, past its first hop, it is counted and does not. -/
inductive Tally (made : ℕ) (store : κ) (first : Prop) (p' : Pool κ) (c' : Call) : Prop
  | waits (shows : Shows made store p') (acquiring : c'.stage.acquiring = true)
  | counts (shows : Shows (made + 1) store p') (stage : c'.stage = .callback p'.made)
  | skips (later : ¬first) (shows : Shows (made + 1) store p') (quiet : c'.stage.inCallback = false)

theorem Tally.set_calls {p' : Pool κ} {made : ℕ} {store : κ} {first : Prop} {c' : Call} (h : Tally made store first p' c')
    (calls : List Call) : Tally made store first { p' with calls } c' := by
  cases h with
  | waits shows acquiring => exact .waits ⟨shows.made, shows.store⟩ acquiring
  | counts shows stage => exact .counts ⟨shows.made, shows.store⟩ stage
  | skips later shows quiet => exact .skips later ⟨shows.made, shows.store⟩ quiet

/-- The event goes on with a redirect hop. -/
def OnHop (p : Pool κ) : Event → Prop
  | .responded .. => True
  | .lockGranted i _ | .slept i _ => ∃ c ∈ p.calls[i]?, c.redirects ≠ 0
  | _ => False

instance (p : Pool κ) : (e : Event) → Decidable (p.OnHop e)
  | .responded .. => inferInstanceAs (Decidable True)
  | .lockGranted i _ | .slept i _ => inferInstanceAs (Decidable (∃ c ∈ p.calls[i]?, c.redirects ≠ 0))
  | .request .. | .calledBack _ | .httpError .. | .interrupted .. | .aexit => inferInstanceAs (Decidable False)

/-- **What one step does to counter and store**, with the callback `f`. -/
inductive Entry (f : ℕ → κ → κ) (p : Pool κ) : Event → Pool κ → Prop
  | leaves {p'} (shows : Shows p.made p.store p') (calls : p'.calls = p.calls) : Entry f p .aexit p'
  | refused {args now clock a₁ a₂ a₃ p' c'} (shows : Shows p.made p.store p') (stopped : c'.stage.stopped = true)
    (calls : p'.calls = p.calls ++ [c']) : Entry f p (.request args now clock a₁ a₂ a₃) p'
  | opens {args now clock a₁ a₂ a₃ p' c'} {first : Prop} (hfirst : first)
    (tally : Tally p.made p.store first p' c') (calls : p'.calls = p.calls ++ [c']) : Entry f p (.request args now clock a₁ a₂ a₃) p'
  | resumes {e i c p' c'} {first : Prop} (hc : p.calls[i]? = some c) (live : c.stage.stopped = false)
    (quiet : c.stage.inCallback = false) (hop : ¬first → OnHop p e) (tally : Tally p.made p.store first p' c')
    (calls : p'.calls = p.calls.set i c') : Entry f p e p'
  | writes {i c n p' c'} (hc : p.calls[i]? = some c) (stage : c.stage = .callback n)
    (shows : Shows p.made (f n p.store) p') (quiet : c'.stage.inCallback = false)
    (calls : p'.calls = p.calls.set i c') : Entry f p (.calledBack i) p'
  | stops {e i c p' c'} (hc : p.calls[i]? = some c) (live : c.stage.stopped = false)
    (shows : Shows p.made p.store p') (stopped : c'.stage.stopped = true)
    (cut : c.stage.inCallback = true → ∃ exc, e = .interrupted i exc) (calls : p'.calls = p.calls.set i c') : Entry f p e p'

end

section

variable [u : UnicodeTables] {κ : Type} {cl : Client κ} {f : ℕ → κ → κ} {p p' : Pool κ}

theorem send_count (cl : Client κ) (p : Pool κ) (i : ℕ) (c : Call) :
    Shows p.made p.store (p.send cl i c).1 ∧ (p.send cl i c).2.stage.inCallback = false ∧
      (p.send cl i c).1.calls = p.calls := by
  unfold send
  dsimp only
  split
  · exact ⟨⟨rfl, rfl⟩, rfl, rfl⟩
  · split
    · exact ⟨⟨rfl, rfl⟩, rfl, rfl⟩
    · exact ⟨⟨rfl, rfl⟩, rfl, rfl⟩

theorem limited_tally (hf : cl.on_request = some f) (p : Pool κ) (i : ℕ) (c : Call)
    (r : RateLimiter × RateLimiter.Progress) :
    Tally p.made p.store (c.redirects = 0) (p.limited cl i c r).1 (p.limited cl i c r).2 ∧
      (p.limited cl i c r).1.calls = p.calls := by
  unfold limited
  dsimp only
  split
  · unfold acquired
    rw [hf, Option.isSome_some]
    dsimp only
    split
    next hfirst => exact ⟨.counts ⟨rfl, rfl⟩ rfl, rfl⟩
    next hlater =>
      obtain ⟨shows, quiet, calls⟩ := send_count cl { p with rate := r.1, guard := p.guard.note_requests 1 } i c
      exact ⟨.skips (fun hfirst ↦ hlater ⟨hfirst, rfl⟩) shows quiet, calls⟩
  · exact ⟨.waits ⟨rfl, rfl⟩ rfl, rfl⟩
  · exact ⟨.waits ⟨rfl, rfl⟩ rfl, rfl⟩

/-- A response ends the call, or is a redirect hop that goes on from the limiter. -/
theorem respond_tally (hf : cl.on_request = some f) (p : Pool κ) (i : ℕ) (c : Call) (req : HttpxRequest)
    (resp : Response) (clock : ℚ) (answer : DnsAnswer) :
    (p.respond cl i c req resp clock answer).1.calls = p.calls ∧
      ((Shows p.made p.store (p.respond cl i c req resp clock answer).1 ∧
          (p.respond cl i c req resp clock answer).2.stage.stopped = true) ∨
        ∃ first, Tally p.made p.store first (p.respond cl i c req resp clock answer).1
          (p.respond cl i c req resp clock answer).2) := by
  unfold respond
  dsimp only
  split
  swap
  · exact ⟨rfl, .inl ⟨⟨rfl, rfl⟩, rfl⟩⟩
  split
  swap
  · exact ⟨rfl, .inl ⟨⟨rfl, rfl⟩, rfl⟩⟩
  split
  · exact ⟨rfl, .inl ⟨⟨rfl, rfl⟩, rfl⟩⟩
  unfold redirect
  dsimp only
  split
  · exact ⟨rfl, .inl ⟨⟨rfl, rfl⟩, rfl⟩⟩
  split
  · exact ⟨rfl, .inl ⟨⟨rfl, rfl⟩, rfl⟩⟩
  split
  · exact ⟨rfl, .inl ⟨⟨rfl, rfl⟩, rfl⟩⟩
  split
  · exact ⟨rfl, .inl ⟨⟨rfl, rfl⟩, rfl⟩⟩
  · obtain ⟨tally, calls⟩ := limited_tally hf { p with consecutive_errors := 0 } i _ _
    exact ⟨calls, .inr ⟨_, tally⟩⟩

theorem request_entry (hf : cl.on_request = some f) (p : Pool κ) (args : Args) (now : ℤ) (clock : ℚ)
    (a₁ a₂ a₃ : DnsAnswer) :
    Entry f p (.request args now clock a₁ a₂ a₃)
      { (p.request cl args now clock a₁ a₂ a₃).1 with
        calls := (p.request cl args now clock a₁ a₂ a₃).1.calls ++
          [(p.request cl args now clock a₁ a₂ a₃).2] } := by
  unfold request
  dsimp only
  split
  · exact .refused ⟨rfl, rfl⟩ rfl rfl
  next d _ =>
    obtain ⟨tally, calls⟩ := limited_tally hf p p.calls.length
      { newCall args a₁ with current_ips := d.details.ips.getD [] } (p.rate.acquire p.calls.length clock)
    exact .opens rfl (tally.set_calls _) (congrArg (· ++ _) calls)

theorem resume_entry (hf : cl.on_request = some f) {i : ℕ} {c c' : Call} {e : Event} (hi : e.call? = some i)
    (hc : p.calls[i]? = some c) (h : p.resume cl i c e = some (p', c')) :
    Entry f p e { p' with calls := p'.calls.set i c' } := by
  unfold resume at h
  split at h
  next _ _ j clock hstage =>
    split at h
    · obtain ⟨tally, calls⟩ := limited_tally hf p i c (p.rate.locked clock)
      rw [Option.some.inj h] at tally calls
      cases Option.some.inj hi
      exact .resumes hc (by rw [hstage]; rfl) (by rw [hstage]; rfl) (fun hlater ↦ ⟨c, hc, hlater⟩)
        (tally.set_calls _) (congrArg (·.set i c') calls)
    · cases h
  next _ _ j clock hstage =>
    obtain ⟨tally, calls⟩ := limited_tally hf p i c (p.rate.slept clock, .acquired)
    rw [Option.some.inj h] at tally calls
    cases Option.some.inj hi
    exact .resumes hc (by rw [hstage]; rfl) (by rw [hstage]; rfl) (fun hlater ↦ ⟨c, hc, hlater⟩)
      (tally.set_calls _) (congrArg (·.set i c') calls)
  next _ _ j count hstage =>
    obtain ⟨shows, quiet, calls⟩ := send_count cl
      { p with store := (cl.on_request.getD fun _ s ↦ s) count p.store } i c
    rw [Option.some.inj h, hf] at shows
    rw [Option.some.inj h] at quiet calls
    cases Option.some.inj hi
    exact .writes hc hstage ⟨shows.made, shows.store⟩ quiet (congrArg (·.set i c') calls)
  next _ _ j resp clock answer req hstage =>
    have hresp := respond_tally hf p i c req resp clock answer
    rw [Option.some.inj h] at hresp
    obtain ⟨calls, ⟨shows, stopped⟩ | ⟨first, tally⟩⟩ := hresp
    · refine .stops hc (by rw [hstage]; rfl) ⟨shows.made, shows.store⟩ stopped ?_ (congrArg (·.set i c') calls)
      rw [hstage]
      rintro ⟨⟩
    · exact .resumes hc (by rw [hstage]; rfl) (by rw [hstage]; rfl) (fun _ ↦ trivial) (tally.set_calls _)
        (congrArg (·.set i c') calls)
  next _ _ j message req hstage =>
    obtain ⟨rfl, rfl⟩ := Prod.mk.inj (Option.some.inj h)
    refine .stops hc (by rw [hstage]; rfl) ⟨rfl, rfl⟩ rfl ?_ rfl
    rw [hstage]
    rintro ⟨⟩
  next _ _ j exc hstage =>
    obtain ⟨rfl, rfl⟩ := Prod.mk.inj (Option.some.inj h)
    exact .stops hc (by rw [hstage]; rfl) ⟨rfl, rfl⟩ rfl (fun _ ↦ ⟨exc, by cases Option.some.inj hi; rfl⟩) rfl
  next _ _ j exc hstage =>
    obtain ⟨rfl, rfl⟩ := Prod.mk.inj (Option.some.inj h)
    exact .stops hc (by rw [hstage]; rfl) ⟨rfl, rfl⟩ rfl (fun _ ↦ ⟨exc, by cases Option.some.inj hi; rfl⟩) rfl
  next _ _ j exc count hstage =>
    obtain ⟨rfl, rfl⟩ := Prod.mk.inj (Option.some.inj h)
    exact .stops hc (by rw [hstage]; rfl) ⟨rfl, rfl⟩ rfl (fun _ ↦ ⟨exc, by cases Option.some.inj hi; rfl⟩) rfl
  next _ _ j exc req hstage =>
    obtain ⟨rfl, rfl⟩ := Prod.mk.inj (Option.some.inj h)
    exact .stops hc (by rw [hstage]; rfl) ⟨rfl, rfl⟩ rfl (fun _ ↦ ⟨exc, by cases Option.some.inj hi; rfl⟩) rfl
  next => cases h

/-- **The inversion.** -/
theorem entry_of_step (hf : cl.on_request = some f) {e : Event} (h : p.step cl e = some p') : Entry f p e p' := by
  cases e with
  | request args now clock a₁ a₂ a₃ =>
    obtain rfl := Option.some.inj h
    exact request_entry hf p args now clock a₁ a₂ a₃
  | aexit =>
    obtain rfl := Option.some.inj h
    exact .leaves ⟨rfl, rfl⟩ rfl
  | _ =>
    simp only [step, Event.call?, Option.bind_eq_bind, Option.bind_some] at h
    obtain ⟨c, hc, h⟩ := Option.bind_eq_some_iff.1 h
    obtain ⟨⟨q, c'⟩, hr, h⟩ := Option.bind_eq_some_iff.1 h
    obtain rfl := Option.some.inj h
    exact resume_entry hf rfl hc hr

end

/-! ### Sequential runs -/

section

variable {κ : Type}

/-- One request at a time. -/
def Alone (p : Pool κ) : Event → Prop
  | .request .. => ∀ c ∈ p.calls, c.stage.stopped = true
  | _ => True

instance (p : Pool κ) : (e : Event) → Decidable (p.Alone e)
  | .request .. => inferInstanceAs (Decidable (∀ c ∈ p.calls, c.stage.stopped = true))
  | .responded .. | .lockGranted .. | .slept .. | .calledBack _ | .httpError .. | .interrupted .. | .aexit =>
    inferInstanceAs (Decidable True)

/-- A count is about to be stored. -/
def Saving (p : Pool κ) : Prop := ∃ c ∈ p.calls, c.stage.saving = true

variable [u : UnicodeTables]

/-- No multiple of ten is skipped: no redirect hop is counted at one, and no callback that is about to store one
is cut off. -/
def Punctual (cl : Client κ) (p : Pool κ) : Event → Prop
  | .interrupted i _ => ∀ c ∈ p.calls[i]?, c.stage.saving = false
  | e => p.OnHop e → ∀ p' ∈ p.step cl e, p'.made = p.made + 1 → p'.made % 10 ≠ 0

end

section

/-- **The invariant** of a sequential run without skipped multiples. -/
structure Saved (p : Pool ℕ) : Prop where
  single : ∀ (i j : ℕ) (c d : Call), p.calls[i]? = some c → p.calls[j]? = some d → c.stage.stopped = false →
    d.stage.stopped = false → i = j
  le : p.store ≤ p.made
  called : ∀ c ∈ p.calls, ∀ n, c.stage = .callback n → n = p.made ∧ (p.made - 1) / 10 * 10 ≤ p.store
  idle : (∀ c ∈ p.calls, c.stage.inCallback = false) → p.made / 10 * 10 ≤ p.store

variable {p p' : Pool ℕ}

/-- All calls but one have stopped. -/
def Only (p : Pool ℕ) (i : ℕ) : Prop := ∀ (j : ℕ) (c : Call), j ≠ i → p.calls[j]? = some c → c.stage.stopped = true

/-- What holds of counter and store, as far as one call can say. -/
structure SavedAt (p : Pool ℕ) (c : Call) : Prop where
  le : p.store ≤ p.made
  called : ∀ n, c.stage = .callback n → n = p.made ∧ (p.made - 1) / 10 * 10 ≤ p.store
  idle : c.stage.inCallback = false → p.made / 10 * 10 ≤ p.store

theorem Saved.of_only {i : ℕ} {c : Call} (hc : p.calls[i]? = some c) (honly : Only p i) (h : SavedAt p c) :
    Saved p := by
  have hlive : ∀ j d, p.calls[j]? = some d → d.stage.stopped = false → j = i := by
    intro j d hd hlive
    by_contra hne
    rw [honly j d hne hd] at hlive
    cases hlive
  refine ⟨?_, h.le, ?_, fun hall ↦ h.idle (hall c (List.mem_of_getElem? hc))⟩
  · intro j k d d' hd hd' hlive₁ hlive₂
    rw [hlive j d hd hlive₁, hlive k d' hd' hlive₂]
  · intro d hd n hn
    obtain ⟨j, hj⟩ := List.mem_iff_getElem?.1 hd
    obtain rfl := hlive j d hj (by rw [hn]; rfl)
    rw [hc] at hj
    cases hj
    exact h.called n hn

theorem Saved.only_set (hs : Saved p) {i : ℕ} {c : Call} (hc : p.calls[i]? = some c) (hlive : c.stage.stopped = false)
    {c' : Call} (hcalls : p'.calls = p.calls.set i c') : Only p' i ∧ p'.calls[i]? = some c' := by
  constructor
  · intro j d hne hd
    rw [hcalls, List.getElem?_set_ne (Ne.symm hne)] at hd
    by_contra hstopped
    exact hne (hs.single j i d c hd hc (Bool.eq_false_iff.2 hstopped) hlive)
  · rw [hcalls, List.getElem?_set_self (List.getElem?_eq_some_iff.1 hc).1]

theorem only_append (hall : ∀ c ∈ p.calls, c.stage.stopped = true) {c' : Call} (hcalls : p'.calls = p.calls ++ [c']) :
    Only p' p.calls.length ∧ p'.calls[p.calls.length]? = some c' := by
  constructor
  · intro j d hne hd
    have hlt : j < p.calls.length := by
      have hj := (List.getElem?_eq_some_iff.1 hd).1
      rw [hcalls, List.length_append, List.length_singleton] at hj
      omega
    rw [hcalls, List.getElem?_append_left hlt] at hd
    exact hall d (List.mem_of_getElem? hd)
  · rw [hcalls, List.getElem?_append_right le_rfl, Nat.sub_self]
    rfl

/-- A call that is not in the callback has no other call beside it that is. -/
theorem Saved.idle_of_quiet (hs : Saved p) {i : ℕ} {c : Call} (hc : p.calls[i]? = some c)
    (hlive : c.stage.stopped = false) (hquiet : c.stage.inCallback = false) : p.made / 10 * 10 ≤ p.store := by
  refine hs.idle fun d hd ↦ ?_
  obtain ⟨j, hj⟩ := List.mem_iff_getElem?.1 hd
  by_cases hstopped : d.stage.stopped = true
  · exact (ledger_of_stopped hstopped).2
  · obtain rfl := hs.single j i d c hj hc (Bool.eq_false_iff.2 hstopped) hlive
    rw [hc] at hj
    cases hj
    exact hquiet

theorem Saved.idle_of_stopped (hs : Saved p) (hall : ∀ c ∈ p.calls, c.stage.stopped = true) :
    p.made / 10 * 10 ≤ p.store :=
  hs.idle fun c hc ↦ (ledger_of_stopped (hall c hc)).2

theorem Tally.savedAt {made store : ℕ} {first : Prop} {c' : Call} (h : Tally made store first p' c')
    (hle : store ≤ made) (hlow : made / 10 * 10 ≤ store) (hskip : ¬first → p'.made = made + 1 → p'.made % 10 ≠ 0) :
    SavedAt p' c' := by
  cases h with
  | waits shows acquiring =>
    refine ⟨?_, ?_, ?_⟩
    · rw [shows.made, shows.store]
      exact hle
    · intro n hn
      rw [hn] at acquiring
      cases acquiring
    · intro _
      rw [shows.made, shows.store]
      exact hlow
  | counts shows stage =>
    have hmade := shows.made
    refine ⟨?_, ?_, ?_⟩
    · rw [shows.made, shows.store]
      omega
    · intro n hn
      rw [stage] at hn
      cases hn
      refine ⟨rfl, ?_⟩
      rw [shows.made, shows.store]
      exact hlow
    · intro hquiet
      rw [stage] at hquiet
      cases hquiet
  | skips later shows quiet =>
    have hmultiple := hskip later shows.made
    rw [shows.made] at hmultiple
    refine ⟨?_, ?_, ?_⟩
    · rw [shows.made, shows.store]
      omega
    · intro n hn
      rw [hn] at quiet
      cases quiet
    · intro _
      rw [shows.made, shows.store]
      omega

theorem Saved.init (g : ScopeGuard) (clock : ℚ) : Saved (Pool.init g g.requests_made clock) where
  single i j c d hc := by cases hc
  le := le_rfl
  called c hc := by cases hc
  idle _ := Nat.div_mul_le_self _ _

/-- Outside a callback that is about to store its count, the store is less than ten behind. -/
theorem Saved.lag (hs : Saved p) :
    p.made ≤ p.store + 10 ∧ (¬p.Saving → p.made < p.store + 10) ∧ p.made < p.store + 10 + p.inCallback := by
  by_cases hquiet : ∀ c ∈ p.calls, c.stage.inCallback = false
  · have hlow := hs.idle hquiet
    exact ⟨by omega, fun _ ↦ by omega, by omega⟩
  · obtain ⟨c, hc, hin⟩ : ∃ c ∈ p.calls, c.stage.inCallback = true := by
      by_contra hnone
      exact hquiet fun c hc ↦ Bool.eq_false_iff.2 fun hin ↦ hnone ⟨c, hc, hin⟩
    have hcount : 0 < p.inCallback := List.countP_pos_iff.2 ⟨c, hc, hin⟩
    cases hstage : c.stage with
    | callback n =>
      obtain ⟨rfl, hlow⟩ := hs.called c hc n hstage
      refine ⟨by omega, fun hsaving ↦ ?_, by omega⟩
      have hmultiple : p.made % 10 ≠ 0 := by
        intro hzero
        refine hsaving ⟨c, hc, ?_⟩
        rw [hstage]
        exact decide_eq_true hzero
      omega
    | _ =>
      rw [hstage] at hin
      cases hin

variable [u : UnicodeTables] {cl : Client ℕ}

theorem Saved.step (hcl : cl.on_request = some _persist_request_count) {e : Event} (hs : Saved p)
    (halone : p.Alone e) (hpunctual : p.Punctual cl e) (h : p.step cl e = some p') : Saved p' := by
  have hentry := entry_of_step hcl h
  -- a hop that is counted is not counted at a multiple of ten
  have hskip : p.OnHop e → p'.made = p.made + 1 → p'.made % 10 ≠ 0 := by
    intro hhop hmade
    cases e with
    | interrupted => cases hhop
    | _ => exact hpunctual hhop p' h hmade
  cases hentry with
  | leaves shows calls =>
    refine ⟨?_, ?_, ?_, ?_⟩
    · rw [calls]
      exact hs.single
    · rw [shows.made, shows.store]
      exact hs.le
    · rw [calls, shows.made, shows.store]
      exact hs.called
    · rw [calls, shows.made, shows.store]
      exact hs.idle
  | refused shows stopped calls =>
    obtain ⟨honly, hc⟩ := only_append halone calls
    refine .of_only hc honly ⟨?_, ?_, fun _ ↦ ?_⟩
    · rw [shows.made, shows.store]
      exact hs.le
    · intro n hn
      rw [hn] at stopped
      cases stopped
    · rw [shows.made, shows.store]
      exact hs.idle_of_stopped halone
  | opens hfirst tally calls =>
    obtain ⟨honly, hc⟩ := only_append halone calls
    exact .of_only hc honly
      (tally.savedAt hs.le (hs.idle_of_stopped halone) fun hlater _ ↦ absurd hfirst hlater)
  | resumes hc live quiet hop tally calls =>
    obtain ⟨honly, hc'⟩ := hs.only_set hc live calls
    exact .of_only hc' honly
      (tally.savedAt hs.le (hs.idle_of_quiet hc live quiet) fun hlater hmade ↦ hskip (hop hlater) hmade)
  | @writes i c n p' c' hc stage shows quiet calls =>
    obtain ⟨honly, hc'⟩ := hs.only_set hc (by rw [stage]; rfl) calls
    obtain ⟨rfl, hlow⟩ := hs.called c (List.mem_of_getElem? hc) n stage
    have hle := hs.le
    have hstore : p'.store = if p.made % 10 = 0 then p.made else p.store := shows.store
    refine .of_only hc' honly ⟨?_, ?_, fun _ ↦ ?_⟩
    · rw [shows.made, hstore]
      split <;> omega
    · intro m hm
      rw [hm] at quiet
      cases quiet
    · rw [shows.made, hstore]
      split <;> omega
  | @stops e i c p' c' hc live shows stopped cut calls =>
    obtain ⟨honly, hc'⟩ := hs.only_set hc live calls
    refine .of_only hc' honly ⟨?_, ?_, fun _ ↦ ?_⟩
    · rw [shows.made, shows.store]
      exact hs.le
    · intro n hn
      rw [hn] at stopped
      cases stopped
    · rw [shows.made, shows.store]
      by_cases hquiet : c.stage.inCallback = false
      · exact hs.idle_of_quiet hc live hquiet
      · -- the callback was cut off, and it was not about to store anything
        obtain ⟨exc, rfl⟩ := cut (Bool.eq_true_of_not_eq_false hquiet)
        have hsaving : c.stage.saving = false := hpunctual c hc
        cases hstage : c.stage with
        | callback n =>
          obtain ⟨rfl, hlow⟩ := hs.called c (List.mem_of_getElem? hc) n hstage
          rw [hstage] at hsaving
          have hmultiple : p.made % 10 ≠ 0 := of_decide_eq_false hsaving
          omega
        | _ =>
          rw [hstage] at hquiet
          exact absurd rfl hquiet

/-- What was sent, and what is in the callback, has been counted. -/
theorem sent_le_made {κ : Type} {cl : Client κ} {g : ScopeGuard} {store : κ} {clock : ℚ} {es : List Event}
    {p : Pool κ} (h : Machine.run (step cl) (Pool.init g store clock) es = some p) :
    p.sent.length + p.inCallback + g.requests_made ≤ p.made := by
  have hstart : (Pool.init g store clock).sent.length + (Pool.init g store clock).inCallback + g.requests_made ≤
      (Pool.init g store clock).made := by
    show 0 + 0 + g.requests_made ≤ g.requests_made
    omega
  refine Machine.inv_of_run (I := fun q ↦ q.sent.length + q.inCallback + g.requests_made ≤ q.made) ?_ h hstart
  intro q e q' hq hstep
  obtain ⟨-, -, hledger⟩ := (move_of_step hstep).ledger
  rw [made] at hq ⊢
  omega

/-- **The stored counter lags by less than ten** in every sequential run that skips no multiple of ten: outside
the callback for a multiple of ten, and, in what was sent, in every state. -/
theorem count_of_punctual {g : ScopeGuard} {clock : ℚ} {es : List Event}
    (hcl : cl.on_request = some _persist_request_count)
    (halone : Machine.Along (step cl) Alone (Pool.init g g.requests_made clock) es)
    (hpunctual : Machine.Along (step cl) (Punctual cl) (Pool.init g g.requests_made clock) es)
    (h : Machine.run (step cl) (Pool.init g g.requests_made clock) es = some p) :
    p.store ≤ p.made ∧ p.made ≤ p.store + 10 ∧ (¬p.Saving → p.made < p.store + 10) ∧
      g.requests_made + p.sent.length < p.store + 10 := by
  have hboth : Machine.Along (step cl) (fun q e ↦ q.Alone e ∧ q.Punctual cl e) (Pool.init g g.requests_made clock)
      es := halone.and hpunctual
  have hsaved : Saved p :=
    Machine.inv_of_run_along (fun hs hC hstep ↦ hs.step hcl hC.1 hC.2 hstep) hboth h (.init g clock)
  obtain ⟨hle, hlag, hback⟩ := hsaved.lag
  have hsent := sent_le_made h
  exact ⟨hsaved.le, hle, hlag, by omega⟩

end

end Pool

section

attribute [local instance] asciiTables

/-- A redirect to another path of the host. -/
def onward : Response where
  status_code := 302
  headers := [("location".toList, "https://app.example/b".toList)]

/-- A request, its callback, one redirect and the answer. -/
def redirectedCall (i : ℕ) : List Event := [
  getRequest (2 * i), .calledBack i, .responded i onward (2 * i + 1) sampleAnswer,
  .responded i { status_code := 200 } (2 * i + 1) sampleAnswer]

/-- Nine requests counted before, and a tenth that is sent directly. -/
def tenthGuard : ScopeGuard := { record := sampleRecord, requests_made := 9 }

theorem count_of_punctual_tenth :
    ∃ p, Machine.run (Pool.step accountingClient) (Pool.init tenthGuard tenthGuard.requests_made 0)
        [getRequest 0, .calledBack 0] = some p ∧
      (p.store ≤ p.made ∧ p.made ≤ p.store + 10 ∧ (¬p.Saving → p.made < p.store + 10) ∧
        tenthGuard.requests_made + p.sent.length < p.store + 10) := by
  obtain ⟨p, hp⟩ : ∃ p, Machine.run (Pool.step accountingClient) (Pool.init tenthGuard tenthGuard.requests_made 0)
      [getRequest 0, .calledBack 0] = some p := Option.isSome_iff_exists.1 (by decide +kernel)
  have halone : Machine.Along (Pool.step accountingClient) Pool.Alone
      (Pool.init tenthGuard tenthGuard.requests_made 0) [getRequest 0, .calledBack 0] := by decide +kernel
  have hpunctual : Machine.Along (Pool.step accountingClient) (Pool.Punctual accountingClient)
      (Pool.init tenthGuard tenthGuard.requests_made 0) [getRequest 0, .calledBack 0] := by
    refine ⟨fun hhop ↦ ?_, fun _ _ ↦ ⟨fun hhop ↦ ?_, fun _ _ ↦ trivial⟩⟩
    · cases hhop
    · cases hhop
  exact ⟨p, hp, Pool.count_of_punctual rfl halone hpunctual hp⟩

/-- Five redirected calls, one after the other: the callback sees 1, 3, 5, 7 and 9, every other count is that of
a hop. All calls have returned, ten requests are counted, and nothing was stored. -/
theorem redirectedCalls_lag :
    Machine.Along (Pool.step accountingClient) Pool.Alone (Pool.init { record := sampleRecord } 0 0)
        ((List.range 5).flatMap redirectedCall) ∧
      ∃ p, Machine.run (Pool.step accountingClient) (Pool.init { record := sampleRecord } 0 0)
          ((List.range 5).flatMap redirectedCall) = some p ∧
        (p.made = 10 ∧ p.sent.length = 10 ∧ p.store = 0 ∧ ∀ c ∈ p.calls, c.stage.stopped = true) := by
  decide +kernel

end

end Sentrik
