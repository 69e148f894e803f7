import Sentrik.Agents.Pool
import Sentrik.Library.BoundedQueue

/-!
# The message bus

Topics, and subscribers with a bounded queue each. A publisher never waits: it puts the message into the
queue of every subscriber of the topic and drops it where the queue is full. The lock of the bus is never
held across a suspension, so a call is one step, and calls of agents, subscribers and consumers interleave
freely.

Queues are referred to by the number of the subscription that created them. A queue that is unsubscribed
keeps what it has, and can still be read.

`view` is what a run of the bus means to one subscription: the puts of its topic while it is subscribed, and
its own consumer's gets. `private_of_run` says that this is all: the queue is what a queue of its own would
be, whatever the other subscribers do.
-/

namespace Sentrik

/-- An envelope. Without a recipient it is for everybody on the topic. -/
structure AgentMessage (α : Type*) where
  topic : String
  sender : ℕ × ℕ
  payload : α
  recipient : Option (ℕ × ℕ) := none
  deriving DecidableEq, Repr

structure MessageBus (α : Type*) where
  _subscribers : String → List ℕ := fun _ ↦ []
  _history : List (AgentMessage α) := []
  _max_queue : ℤ := 1000
  /-- The queues that were created. -/
  queues : List (BoundedQueue (AgentMessage α)) := []

inductive BusEvent (α : Type*)
  | subscribe (topic : String)
  | unsubscribe (topic : String) (q : ℕ)
  | publish (message : AgentMessage α)
  /-- The consumer of a queue takes a message. -/
  | get (q : ℕ)

namespace MessageBus

variable {α : Type*}

/-- A new queue on the topic; its number is returned. -/
def subscribe (bus : MessageBus α) (topic : String) : MessageBus α × ℕ :=
  let q := bus.queues.length
  ({ bus with
    _subscribers := fun t ↦ if t = topic then bus._subscribers t ++ [q] else bus._subscribers t
    queues := bus.queues ++ [{ maxsize := bus._max_queue }] }, q)

def unsubscribe (bus : MessageBus α) (topic : String) (q : ℕ) : MessageBus α :=
  { bus with
    _subscribers := fun t ↦ if t = topic then (bus._subscribers t).erase q else bus._subscribers t }

/-- Put the message into each of the queues, and count those that take it. -/
def deliver (message : AgentMessage α) (queues : List (BoundedQueue (AgentMessage α))) :
    List ℕ → List (BoundedQueue (AgentMessage α)) × ℕ
  | [] => (queues, 0)
  | q :: subs =>
    match queues[q]?.bind (·.put_nowait message) with
    | some queue =>
      let (queues, delivered) := deliver message (queues.set q queue) subs
      (queues, delivered + 1)
    | none => deliver message queues subs

/-- Deliver to the subscribers of the topic; how many took the message is returned. -/
def publish (bus : MessageBus α) (message : AgentMessage α) : MessageBus α × ℕ :=
  let (queues, delivered) := deliver message bus.queues (bus._subscribers message.topic)
  ({ bus with _history := bus._history ++ [message], queues }, delivered)

def history (bus : MessageBus α) : Option String → List (AgentMessage α)
  | none => bus._history
  | some topic => bus._history.filter (·.topic == topic)

def step (bus : MessageBus α) : BusEvent α → Option (MessageBus α)
  | .subscribe topic => some (bus.subscribe topic).1
  | .unsubscribe topic q => some (bus.unsubscribe topic q)
  | .publish message => some (bus.publish message).1
  | .get q =>
    (bus.queues[q]?.bind (·.get_nowait)).map fun r ↦ { bus with queues := bus.queues.set q r.2 }

/-! ### What a subscription sees -/

/-- The operations a run means to queue `k`, which was created on the topic and is subscribed or not. -/
def view (topic : String) (k : ℕ) : Bool → List (BusEvent α) → List (BoundedQueue.Op (AgentMessage α))
  | _, [] => []
  | subscribed, .publish message :: es =>
    if subscribed ∧ message.topic = topic then .put message :: view topic k subscribed es
    else view topic k subscribed es
  | subscribed, .get q :: es =>
    if q = k then .take :: view topic k subscribed es else view topic k subscribed es
  | subscribed, .unsubscribe t q :: es => view topic k (subscribed && !(t == topic && q == k)) es
  | subscribed, .subscribe _ :: es => view topic k subscribed es

/-- Subscribers are queues that exist, and a queue is subscribed once, to one topic. -/
structure Inv (bus : MessageBus α) : Prop where
  exist : ∀ t, ∀ q ∈ bus._subscribers t, q < bus.queues.length
  nodup : ∀ t, (bus._subscribers t).Nodup
  single : ∀ t t' q, q ∈ bus._subscribers t → q ∈ bus._subscribers t' → t = t'

variable {bus bus' : MessageBus α} {message : AgentMessage α}

theorem length_deliver (queues : List (BoundedQueue (AgentMessage α))) (subs : List ℕ) :
    (deliver message queues subs).1.length = queues.length := by
  induction subs generalizing queues with
  | nil => rfl
  | cons q subs ih =>
    rw [deliver]
    split
    · exact (ih _).trans List.length_set
    · exact ih _

/-- What delivery does to one queue. -/
theorem getElem?_deliver {queues : List (BoundedQueue (AgentMessage α))} {subs : List ℕ}
    (hnodup : subs.Nodup) (k : ℕ) :
    (deliver message queues subs).1[k]? =
      if k ∈ subs then queues[k]?.map (·.step (.put message)) else queues[k]? := by
  induction subs generalizing queues with
  | nil => rfl
  | cons q subs ih =>
    obtain ⟨hq, hrest⟩ := List.nodup_cons.1 hnodup
    rw [deliver]
    split
    next queue hput =>
      obtain ⟨old, hold, hroom⟩ := Option.bind_eq_some_iff.1 hput
      dsimp only
      rw [ih hrest]
      by_cases hk : k = q
      · subst hk
        obtain ⟨hlt, -⟩ := List.getElem?_eq_some_iff.1 hold
        rw [if_neg hq, if_pos List.mem_cons_self, List.getElem?_set_self hlt, hold, Option.map_some,
          BoundedQueue.step, hroom]
        rfl
      · rw [List.getElem?_set_ne (Ne.symm hk)]
        simp only [List.mem_cons, hk, false_or]
    next hput =>
      rw [ih hrest]
      by_cases hk : k = q
      · subst hk
        rw [if_neg hq, if_pos List.mem_cons_self]
        cases hold : queues[k]? with
        | none => rfl
        | some old =>
          rw [hold, Option.bind_some] at hput
          rw [Option.map_some, BoundedQueue.step, hput]
          rfl
      · simp only [List.mem_cons, hk, false_or]

/-- **Every call keeps the invariant.** -/
theorem Inv.step {e : BusEvent α} (h : Inv bus) (hs : bus.step e = some bus') : Inv bus' := by
  cases e with
  | subscribe topic =>
    rw [← Option.some.inj hs, subscribe]
    have hnew : ∀ t, bus.queues.length ∉ bus._subscribers t :=
      fun t hmem ↦ Nat.lt_irrefl _ (h.exist t _ hmem)
    have hmem : ∀ {t q}, (q ∈ if t = topic then bus._subscribers t ++ [bus.queues.length]
        else bus._subscribers t) → q ∈ bus._subscribers t ∨ t = topic ∧ q = bus.queues.length := by
      intro t q hq
      split at hq
      next ht => exact (List.mem_append.1 hq).imp id fun hq ↦ ⟨ht, List.mem_singleton.1 hq⟩
      next => exact Or.inl hq
    refine ⟨fun t q hq ↦ ?_, fun t ↦ ?_, fun t t' q hq hq' ↦ ?_⟩
    · rw [List.length_append, List.length_singleton]
      rcases hmem hq with hq | ⟨-, rfl⟩
      · exact Nat.lt_succ_of_lt (h.exist t q hq)
      · exact Nat.lt_succ_self _
    · dsimp only
      split
      · exact List.nodup_append.2 ⟨h.nodup t, List.nodup_singleton _, fun a ha b hb heq ↦
          hnew t (by rwa [← List.mem_singleton.1 hb, ← heq])⟩
      · exact h.nodup t
    · rcases hmem hq with hold | ⟨ht, hq⟩
      · rcases hmem hq' with hold' | ⟨-, hq'⟩
        · exact h.single t t' q hold hold'
        · exact absurd (hq' ▸ hold) (hnew t)
      · rcases hmem hq' with hold' | ⟨ht', -⟩
        · exact absurd (hq ▸ hold') (hnew t')
        · exact ht.trans ht'.symm
  | unsubscribe topic q =>
    rw [← Option.some.inj hs, unsubscribe]
    have hmem : ∀ {t k}, (k ∈ if t = topic then (bus._subscribers t).erase q else bus._subscribers t) →
        k ∈ bus._subscribers t := by
      intro t k hk
      split at hk
      · exact List.mem_of_mem_erase hk
      · exact hk
    refine ⟨fun t k hk ↦ h.exist t k (hmem hk), fun t ↦ ?_,
      fun t t' k hk hk' ↦ h.single t t' k (hmem hk) (hmem hk')⟩
    dsimp only
    split
    · exact (h.nodup t).erase q
    · exact h.nodup t
  | publish message =>
    rw [← Option.some.inj hs, publish]
    exact ⟨fun t q hq ↦ (length_deliver _ _).symm ▸ h.exist t q hq, h.nodup, h.single⟩
  | get q =>
    obtain ⟨r, -, rfl⟩ := Option.map_eq_some_iff.1 hs
    exact ⟨fun t k hk ↦ List.length_set.symm ▸ h.exist t k hk, h.nodup, h.single⟩

/-- **A queue runs on its own view.** -/
theorem queue_of_run {topic : String} {k : ℕ} {subscribed : Bool} {queue : BoundedQueue (AgentMessage α)}
    {es : List (BusEvent α)} (h : Inv bus) (hqueue : bus.queues[k]? = some queue)
    (hsub : k ∈ bus._subscribers topic ↔ subscribed = true)
    (honly : ∀ t, k ∈ bus._subscribers t → t = topic) (hrun : Machine.run step bus es = some bus') :
    bus'.queues[k]? = some (queue.run (view topic k subscribed es)) := by
  induction es generalizing bus subscribed queue with
  | nil => exact Option.some.inj hrun ▸ hqueue
  | cons e es ih =>
    obtain ⟨bus₁, hs, hrest⟩ := Option.bind_eq_some_iff.1 hrun
    have h₁ := h.step hs
    cases e with
    | subscribe t =>
      obtain rfl := Option.some.inj hs
      obtain ⟨hlt, -⟩ := List.getElem?_eq_some_iff.1 hqueue
      have hmem : ∀ {t'}, k ∈ (bus.subscribe t).1._subscribers t' ↔ k ∈ bus._subscribers t' := by
        intro t'
        change (k ∈ if t' = t then _ else _) ↔ _
        split
        · rw [List.mem_append, List.mem_singleton]
          exact or_iff_left (Nat.ne_of_lt hlt)
        · rfl
      refine ih h₁ ?_ (hmem.trans hsub) (fun t' ht' ↦ honly t' (hmem.1 ht')) hrest
      exact (List.getElem?_append_left hlt).trans hqueue
    | unsubscribe t q =>
      obtain rfl := Option.some.inj hs
      have hmem : ∀ {t'}, k ∈ (bus.unsubscribe t q)._subscribers t' ↔
          k ∈ bus._subscribers t' ∧ ¬(t = t' ∧ q = k) := by
        intro t'
        change (k ∈ if t' = t then (bus._subscribers t').erase q else bus._subscribers t') ↔ _
        split
        next ht =>
          rw [(h.nodup t').mem_erase_iff, and_comm]
          simp [ht, eq_comm]
        next ht => simp [Ne.symm ht]
      refine @ih _ (subscribed && !(t == topic && q == k)) _ h₁ hqueue
        (hmem.trans ?_) (fun t' ht' ↦ honly t' (hmem.1 ht').1) hrest
      rw [hsub]
      simp [imp_iff_not_or]
    | publish message =>
      obtain rfl := Option.some.inj hs
      have hk : k ∈ bus._subscribers message.topic ↔ subscribed = true ∧ message.topic = topic := by
        refine ⟨fun hmem ↦ ?_, fun ⟨hsubscribed, ht⟩ ↦ ht ▸ hsub.2 hsubscribed⟩
        have ht := honly _ hmem
        exact ⟨hsub.1 (ht ▸ hmem), ht⟩
      have hdelivered := @getElem?_deliver _ message bus.queues _ (h.nodup message.topic) k
      rw [hqueue] at hdelivered
      rw [view]
      split
      next hcond =>
        rw [if_pos (hk.2 hcond)] at hdelivered
        exact ih h₁ hdelivered hsub honly hrest
      next hcond =>
        rw [if_neg fun hmem ↦ hcond (hk.1 hmem)] at hdelivered
        exact ih h₁ hdelivered hsub honly hrest
    | get q =>
      obtain ⟨r, hr, rfl⟩ := Option.map_eq_some_iff.1 hs
      obtain ⟨old, hold, hget⟩ := Option.bind_eq_some_iff.1 hr
      rw [view]
      split
      next hq =>
        subst hq
        obtain rfl := Option.some.inj (hqueue.symm.trans hold)
        obtain ⟨hlt, -⟩ := List.getElem?_eq_some_iff.1 hqueue
        have htaken : queue.step .take = r.2 := by
          rw [BoundedQueue.step, hget]
          rfl
        rw [BoundedQueue.run_cons, htaken]
        exact ih h₁ (List.getElem?_set_self hlt) hsub honly hrest
      next hq => exact ih h₁ ((List.getElem?_set_ne hq).trans hqueue) hsub honly hrest

theorem inv_of_run {max_queue : ℤ} {es : List (BusEvent α)}
    (h : Machine.run step ({ _max_queue := max_queue } : MessageBus α) es = some bus) : Inv bus :=
  Machine.inv_of_run (fun hI hs ↦ hI.step hs) h
    ⟨fun _ _ hq ↦ absurd hq List.not_mem_nil, fun _ ↦ List.nodup_nil,
      fun _ _ _ hq ↦ absurd hq List.not_mem_nil⟩

theorem max_queue_of_run {es : List (BusEvent α)} (h : Machine.run step bus es = some bus') :
    bus'._max_queue = bus._max_queue := by
  refine Machine.inv_of_run (I := fun b ↦ b._max_queue = bus._max_queue) (fun {b e b'} hb hs ↦ ?_) h rfl
  cases e with
  | subscribe topic | unsubscribe topic q | publish message => exact Option.some.inj hs ▸ hb
  | get q =>
    obtain ⟨r, -, rfl⟩ := Option.map_eq_some_iff.1 hs
    exact hb

/-- The queue of a new subscription, after any further run. -/
theorem subscribed_of_run {max_queue : ℤ} {es es' : List (BusEvent α)} {topic : String}
    (h : Machine.run step ({ _max_queue := max_queue } : MessageBus α) es = some bus)
    (h' : Machine.run step (bus.subscribe topic).1 es' = some bus') :
    bus'.queues[(bus.subscribe topic).2]? =
      some (BoundedQueue.run { maxsize := max_queue } (view topic (bus.subscribe topic).2 true es')) := by
  have hI := inv_of_run h
  have hmax : bus._max_queue = max_queue := max_queue_of_run h
  have hnew : ∀ t, bus.queues.length ∉ bus._subscribers t :=
    fun t hmem ↦ Nat.lt_irrefl _ (hI.exist t _ hmem)
  have hsubscribed : Inv (bus.subscribe topic).1 := hI.step (e := .subscribe topic) rfl
  refine queue_of_run hsubscribed ?_ ?_ (fun t hmem ↦ ?_) h'
  · rw [← hmax]
    exact List.getElem?_concat_length
  · refine iff_of_true ?_ rfl
    change _ ∈ if topic = topic then bus._subscribers topic ++ [bus.queues.length] else _
    rw [if_pos rfl]
    exact List.mem_append_right _ (List.mem_singleton.2 rfl)
  · change _ ∈ (if t = topic then bus._subscribers t ++ [bus.queues.length] else bus._subscribers t) at hmem
    split at hmem
    next ht => exact ht
    next => exact absurd hmem (hnew t)

/-- **Subscribers do not disturb each other.** In every run, what a subscription has received and what waits
in its queue is what a queue of its own has, to which the messages of the topic were offered while it was
subscribed. So it gets them in the order of publication and each at most once; it has at most `max_queue` of
them waiting, when that is positive; and it gets all of them exactly when no publication met its queue full,
however slow the other consumers are. -/
theorem private_of_run {max_queue : ℤ} {es es' : List (BusEvent α)} {topic : String}
    (h : Machine.run step ({ _max_queue := max_queue } : MessageBus α) es = some bus)
    (h' : Machine.run step (bus.subscribe topic).1 es' = some bus') :
    ∃ queue, bus'.queues[(bus.subscribe topic).2]? = some queue ∧
      queue.passed.Sublist (BoundedQueue.offered (view topic (bus.subscribe topic).2 true es')) ∧
      (0 < max_queue → (queue.waiting.length : ℤ) ≤ max_queue) ∧
      (queue.passed = BoundedQueue.offered (view topic (bus.subscribe topic).2 true es') ↔
        BoundedQueue.Roomy { maxsize := max_queue } (view topic (bus.subscribe topic).2 true es')) := by
  refine ⟨_, subscribed_of_run h h', BoundedQueue.passed_sublist _ _, fun hpos ↦ ?_,
    BoundedQueue.passed_eq_iff _ _⟩
  exact BoundedQueue.length_run_le (q := ⟨max_queue, [], []⟩) hpos (Int.le_of_lt hpos) _

/-- The messages of a topic, in the order of publication. -/
def messagesOn (topic : String) : List (BusEvent α) → List (AgentMessage α)
  | [] => []
  | .publish message :: es =>
    if message.topic = topic then message :: messagesOn topic es else messagesOn topic es
  | _ :: es => messagesOn topic es

/-- A subscription beside one that is never read. -/
theorem private_of_run_slow : ∃ bus bus' : MessageBus ℕ, ∃ queue,
    Machine.run step ({ _max_queue := 1 } : MessageBus ℕ) [.subscribe "t"] = some bus ∧
    Machine.run step (bus.subscribe "t").1
      [.publish ⟨"t", (0, 0), 1, none⟩, .get 1, .publish ⟨"t", (0, 0), 2, none⟩] = some bus' ∧
    bus'.queues[(bus.subscribe "t").2]? = some queue ∧ queue.passed.map (·.payload) = [1, 2] ∧
      (0 < (1 : ℤ) → (queue.waiting.length : ℤ) ≤ 1) := by
  obtain ⟨bus, h, h', hpassed⟩ : ∃ bus, Machine.run step ({ _max_queue := 1 } : MessageBus ℕ)
        [.subscribe "t"] = some bus ∧
      (Machine.run step (bus.subscribe "t").1 [.publish ⟨"t", (0, 0), 1, none⟩, .get 1,
        .publish ⟨"t", (0, 0), 2, none⟩]).isSome ∧
      (Machine.run step (bus.subscribe "t").1 [.publish ⟨"t", (0, 0), 1, none⟩, .get 1,
        .publish ⟨"t", (0, 0), 2, none⟩]).map (fun bus' ↦
          bus'.queues[(bus.subscribe "t").2]?.map fun queue ↦ queue.passed.map (·.payload)) =
        some (some [1, 2]) :=
    ⟨_, rfl, by decide +kernel, by decide +kernel⟩
  obtain ⟨bus', h'⟩ := Option.isSome_iff_exists.1 h'
  obtain ⟨queue, hqueue, -, hlength, -⟩ := private_of_run h h'
  rw [h', Option.map_some, hqueue, Option.map_some] at hpassed
  exact ⟨bus, bus', queue, h, h', hqueue, Option.some.inj (Option.some.inj hpassed), hlength⟩

end MessageBus

/-- Whether a step neither reads nor unsubscribes a queue. -/
def BusEvent.spares {α : Type*} (k : ℕ) : BusEvent α → Bool
  | .get q | .unsubscribe _ q => q != k
  | _ => true

/-- A subscription that nobody reads sees puts only. -/
theorem MessageBus.view_of_spares {α : Type*} {topic : String} {k : ℕ} {es : List (BusEvent α)}
    (h : ∀ e ∈ es, e.spares k = true) :
    view topic k true es = (messagesOn topic es).map .put := by
  induction es with
  | nil => rfl
  | cons e es ih =>
    have he := h e List.mem_cons_self
    have hrest := ih fun e he ↦ h e (List.mem_cons_of_mem _ he)
    cases e with
    | subscribe t => exact hrest
    | unsubscribe t q =>
      have hq : q ≠ k := by simpa [BusEvent.spares] using he
      have hstays : (true && !(t == topic && q == k)) = true := by simp [hq]
      rw [view, hstays]
      exact hrest
    | publish message =>
      rw [view, messagesOn]
      by_cases ht : message.topic = topic
      · rw [if_pos ⟨rfl, ht⟩, if_pos ht, List.map_cons, hrest]
      · rw [if_neg fun hcond ↦ ht hcond.2, if_neg ht, hrest]
    | get q =>
      have hq : q ≠ k := by simpa [BusEvent.spares] using he
      rw [view, if_neg hq]
      exact hrest

/-! ### Signals of findings -/

/-- The payload of a signal. -/
structure FindingSignal where
  check_class : String
  severity : String
  title : Text
  deriving DecidableEq, Repr

/-- What an agent publishes for a finding it keeps. -/
def signal (sender : ℕ × ℕ) (f : Dossier.RawFinding) : AgentMessage FindingSignal where
  topic := "findings"
  sender
  payload := ⟨f.check_class, f.severity.value, f.title⟩

/-- The publications at the end of `_verify`. -/
def publications (sender : ℕ × ℕ) (findings : List (Dossier.RawFinding × Bool)) :
    List (BusEvent FindingSignal) :=
  (_verify findings).map fun f ↦ .publish (signal sender f)

/-- Take what is there until the queue is empty. -/
def drain {α : Type*} (queue : BoundedQueue α) : ℕ → List α
  | 0 => []
  | n + 1 =>
    match queue.get_nowait with
    | none => []
    | some (message, queue) => message :: drain queue n

/-- The `a2a.finding_signals` row of the audit log. -/
structure FindingSignals where
  messages : ℕ
  by_severity : String → ℕ

/-- What the coordinator notes at the end of the main pass; without a signal it writes no row. -/
def finding_signals (queue : BoundedQueue (AgentMessage FindingSignal)) : Option FindingSignals :=
  let signals := drain queue queue.waiting.length
  if signals = [] then none
  else
    some {
      messages := signals.length
      by_severity := signals.foldl (fun table m ↦ PoolStats.bump table m.payload.severity) fun _ ↦ 0 }

theorem drain_eq {α : Type*} (queue : BoundedQueue α) (n : ℕ) :
    drain queue n = queue.waiting.take n := by
  induction n generalizing queue with
  | zero => rfl
  | succ n ih =>
    rw [drain, BoundedQueue.get_nowait]
    cases h : queue.waiting with
    | nil => rfl
    | cons a rest =>
      dsimp only
      rw [ih, List.take_succ_cons]

/-- **The coordinator's note.** In every run of the bus of a main pass, the agents publishing in any order
among publications on other topics, the coordinator counts the first thousand signals that were published,
each once, under its severity; what is published beyond that is dropped. -/
theorem signals_of_run {bus : MessageBus FindingSignal} {es : List (BusEvent FindingSignal)}
    (h : Machine.run MessageBus.step (({} : MessageBus FindingSignal).subscribe "findings").1 es = some bus)
    (hspares : ∀ e ∈ es, e.spares 0 = true) :
    ∃ queue, bus.queues[0]? = some queue ∧
      finding_signals queue =
        if MessageBus.messagesOn "findings" es = [] then none
        else some {
          messages := min 1000 (MessageBus.messagesOn "findings" es).length
          by_severity := fun severity ↦
            ((MessageBus.messagesOn "findings" es).take 1000).countP (·.payload.severity == severity) } := by
  set sent := MessageBus.messagesOn "findings" es with hsent
  have hqueue := @MessageBus.subscribed_of_run _ _ bus 1000 [] es "findings" rfl h
  have hview : MessageBus.view "findings" 0 true es = sent.map .put := MessageBus.view_of_spares hspares
  refine ⟨_, hqueue, ?_⟩
  have hwaiting : (BoundedQueue.run { maxsize := 1000 } (sent.map .put) :
      BoundedQueue (AgentMessage FindingSignal)).waiting = sent.take 1000 :=
    BoundedQueue.waiting_run_puts (q := ⟨1000, [], []⟩) (by decide) (by decide) sent
  have hdrain : drain (BoundedQueue.run { maxsize := 1000 } (sent.map .put)) (sent.take 1000).length =
      sent.take 1000 := by
    rw [drain_eq, hwaiting, List.take_length]
  have hnil : sent.take 1000 = [] ↔ sent = [] := by simp
  change finding_signals (BoundedQueue.run { maxsize := 1000 } (MessageBus.view "findings" 0 true es)) = _
  rw [hview, finding_signals, hwaiting, hdrain]
  simp only [hnil]
  split
  · rfl
  · refine congrArg some ?_
    rw [FindingSignals.mk.injEq]
    refine ⟨List.length_take, funext fun severity ↦ ?_⟩
    exact (foldl_bump (fun m : AgentMessage FindingSignal ↦ m.payload.severity) _ _ _).trans (Nat.zero_add _)

/-- Two signals, and a message on another topic between them. -/
theorem signals_of_run_two : ∃ bus queue,
    Machine.run MessageBus.step (({} : MessageBus FindingSignal).subscribe "findings").1
      [.publish ⟨"findings", (0, 0), ⟨"xss", "high", []⟩, none⟩,
        .publish ⟨"other", (0, 1), ⟨"sqli", "low", []⟩, none⟩,
        .publish ⟨"findings", (0, 1), ⟨"sqli", "low", []⟩, none⟩] = some bus ∧
    bus.queues[0]? = some queue ∧ (finding_signals queue).map (·.messages) = some 2 := by
  obtain ⟨bus, h⟩ : ∃ bus,
      Machine.run MessageBus.step (({} : MessageBus FindingSignal).subscribe "findings").1
        [.publish ⟨"findings", (0, 0), ⟨"xss", "high", []⟩, none⟩,
          .publish ⟨"other", (0, 1), ⟨"sqli", "low", []⟩, none⟩,
          .publish ⟨"findings", (0, 1), ⟨"sqli", "low", []⟩, none⟩] = some bus := ⟨_, rfl⟩
  obtain ⟨queue, hqueue, hsignals⟩ := signals_of_run h (by simp [BusEvent.spares])
  refine ⟨bus, queue, h, hqueue, ?_⟩
  rw [hsignals]
  decide +kernel

end Sentrik
