import Mathlib.Data.List.Basic

/-!
# Interactions

A program that asks a world questions and goes on with the answers. The world is not part of the
program: an `Interaction` is a tree with one branch for every answer, so what is proved about all its
branches holds against every world.

Exceptions are the `Except` of the result; a question whose answer is an exception raises it
(`request`), unless the program asks for the answer itself (`attempt`).

## The three readings

* `Ends m log a`: with exactly the exchanges in `log`, the interaction `m` ends with `a`.
* `Always m post`: whatever is answered, `m` ends with an `a` and a `log` that meet `post`. It is
  computed along the program (`always_bind`), and it is what `Ends` quantifies over (`always_iff`).
* `eval f m`: the end of `m` against a world that answers by the function `f` (`ends_trace`).

For what an interaction with exceptions returns when it raises none, `Returns` is `Always`, and `Gives`
and `Yields` are the partial and the total correctness against one deterministic world (`gives_iff`).
-/

universe u v w

/-- A program that asks questions of type `q`, goes on with answers of type `r`, and ends with an
`α`. -/
inductive Interaction (q : Type u) (r : Type v) (α : Type w)
  | done (a : α)
  | ask (query : q) (next : r → Interaction q r α)

namespace Interaction

variable {q : Type u} {r : Type v} {α β : Type w}

protected def bind : Interaction q r α → (α → Interaction q r β) → Interaction q r β
  | done a, f => f a
  | ask query next, f => ask query fun x ↦ (next x).bind f

instance : Monad (Interaction q r) where
  pure := done
  bind := Interaction.bind

@[simp] theorem pure_eq (a : α) : (pure a : Interaction q r α) = done a := rfl

@[simp] theorem done_bind (a : α) (f : α → Interaction q r β) : done a >>= f = f a := rfl

@[simp] theorem ask_bind (query : q) (next : r → Interaction q r α) (f : α → Interaction q r β) :
    ask query next >>= f = ask query fun x ↦ next x >>= f := rfl

instance : LawfulMonad (Interaction q r) := .mk' _
  (by
    intro α m
    induction m with
    | done a => rfl
    | ask query next ih => exact congrArg (ask query) (funext ih))
  (fun _ _ ↦ rfl)
  (by
    intro α β γ m f g
    induction m with
    | done a => rfl
    | ask query next ih => exact congrArg (ask query) (funext ih))

/-! ### Transcripts -/

/-- With exactly these exchanges, the interaction ends with this result. -/
inductive Ends : Interaction q r α → List (q × r) → α → Prop
  | done (a : α) : Ends (done a) [] a
  | ask {query : q} {next : r → Interaction q r α} {x : r} {log : List (q × r)} {a : α}
    (h : Ends (next x) log a) : Ends (ask query next) ((query, x) :: log) a

/-- Whatever is answered, the transcript and the result meet the postcondition. -/
def Always : Interaction q r α → (List (q × r) → α → Prop) → Prop
  | done a, post => post [] a
  | ask query next, post => ∀ x, Always (next x) fun log a ↦ post ((query, x) :: log) a

@[simp] theorem always_done {a : α} {post : List (q × r) → α → Prop} :
    Always (done a) post ↔ post [] a := Iff.rfl

@[simp] theorem always_ask {query : q} {next : r → Interaction q r α}
    {post : List (q × r) → α → Prop} :
    Always (ask query next) post ↔
      ∀ x, Always (next x) fun log a ↦ post ((query, x) :: log) a := Iff.rfl

/-- **The rule of sequencing.** -/
theorem always_bind {m : Interaction q r α} {f : α → Interaction q r β}
    {post : List (q × r) → β → Prop} :
    Always (m >>= f) post ↔ Always m fun log a ↦ Always (f a) fun log' b ↦ post (log ++ log') b := by
  induction m generalizing post with
  | done a => exact Iff.rfl
  | ask query next ih =>
    rw [ask_bind, always_ask, always_ask]
    exact forall_congr' fun x ↦ ih x

/-- **The rule of consequence.** -/
theorem Always.mono {m : Interaction q r α} {post post' : List (q × r) → α → Prop}
    (h : Always m post) (himp : ∀ log a, post log a → post' log a) : Always m post' := by
  induction m generalizing post post' with
  | done a => exact himp [] a h
  | ask query next ih => exact fun x ↦ ih x (h x) fun log a hpost ↦ himp _ a hpost

/-- What holds whatever is answered is what holds of every transcript. -/
theorem always_iff {m : Interaction q r α} {post : List (q × r) → α → Prop} :
    Always m post ↔ ∀ log a, Ends m log a → post log a := by
  induction m generalizing post with
  | done a =>
    constructor
    · rintro h _ _ ⟨⟩
      exact h
    · exact fun h ↦ h [] a (.done a)
  | ask query next ih =>
    rw [always_ask]
    constructor
    · rintro h _ _ (_ | hends)
      exact (ih _).1 (h _) _ _ hends
    · exact fun h x ↦ (ih x).2 fun log a hends ↦ h _ a (.ask hends)

/-- One interaction after the other. -/
theorem Ends.bind {m : Interaction q r α} {f : α → Interaction q r β} {log log' : List (q × r)} {a : α} {b : β}
    (h : Ends m log a) (h' : Ends (f a) log' b) : Ends (m >>= f) (log ++ log') b := by
  induction h with
  | done a => exact h'
  | ask h ih => exact .ask (ih h')

/-! ### Deterministic worlds -/

/-- The result against a world that answers by a function. -/
def eval (f : q → r) : Interaction q r α → α
  | done a => a
  | ask query next => eval f (next (f query))

/-- The exchanges are those of a world that answers by `f`. -/
def AnsweredBy (f : q → r) (log : List (q × r)) : Prop := ∀ e ∈ log, e.2 = f e.1

@[simp] theorem eval_done (f : q → r) (a : α) : eval f (done a) = a := rfl

@[simp] theorem eval_ask (f : q → r) (query : q) (next : r → Interaction q r α) :
    eval f (ask query next) = eval f (next (f query)) := rfl

@[simp] theorem eval_bind (f : q → r) (m : Interaction q r α) (k : α → Interaction q r β) :
    eval f (m >>= k) = eval f (k (eval f m)) := by
  induction m with
  | done a => rfl
  | ask query next ih => exact ih (f query)

/-- The exchanges of that run. -/
def trace (f : q → r) : Interaction q r α → List (q × r)
  | done _ => []
  | ask query next => (query, f query) :: trace f (next (f query))

theorem ends_trace (f : q → r) (m : Interaction q r α) : Ends m (trace f m) (eval f m) := by
  induction m with
  | done a => exact .done a
  | ask query next ih => exact .ask (ih (f query))

theorem ends_of_eval {f : q → r} {m : Interaction q r α} {a : α} (h : eval f m = a) :
    Ends m (trace f m) a :=
  h ▸ ends_trace f m

theorem answeredBy_trace (f : q → r) (m : Interaction q r α) : AnsweredBy f (trace f m) := by
  induction m with
  | done a => exact nofun
  | ask query next ih => exact List.forall_mem_cons.2 ⟨rfl, ih (f query)⟩

/-! ### Exceptions -/

section

variable {ε s α β : Type w} {m : ExceptT ε (Interaction q r) α}
  {f : α → ExceptT ε (Interaction q r) β} {post : List (q × r) → α → Prop}

/-- Ask, and raise the answer if it is an exception. -/
def request (query : q) : ExceptT ε (Interaction q (Except ε s)) s := ExceptT.mk (.ask query .done)

/-- The result of an interaction as a value, its exception included. -/
def attempt (m : ExceptT ε (Interaction q r) α) : ExceptT ε (Interaction q r) (Except ε α) :=
  ExceptT.lift m.run

@[simp] theorem always_run_pure {a : α} {post : List (q × r) → Except ε α → Prop} :
    Always (pure a : ExceptT ε (Interaction q r) α).run post ↔ post [] (.ok a) := Iff.rfl

@[simp] theorem always_run_throw {exc : ε} {post : List (q × r) → Except ε α → Prop} :
    Always (throw exc : ExceptT ε (Interaction q r) α).run post ↔ post [] (.error exc) := Iff.rfl

/-- Sequencing: an exception ends the program. -/
theorem always_run_bind {post : List (q × r) → Except ε β → Prop} :
    Always (m >>= f).run post ↔ Always m.run fun log x ↦
      match x with
      | .ok a => Always (f a).run fun log' b ↦ post (log ++ log') b
      | .error exc => post log (.error exc) := by
  rw [ExceptT.run_bind, always_bind, always_iff, always_iff]
  refine forall_congr' fun log ↦ forall_congr' fun x ↦ imp_congr_right fun _ ↦ ?_
  cases x with
  | ok a => exact Iff.rfl
  | error exc =>
    show post (log ++ []) _ ↔ post log _
    rw [List.append_nil]

@[simp] theorem always_run_request {query : q} {post : List (q × Except ε s) → Except ε s → Prop} :
    Always (request query).run post ↔ ∀ x, post [(query, x)] x := Iff.rfl

@[simp] theorem always_run_attempt {post : List (q × r) → Except ε (Except ε α) → Prop} :
    Always (attempt m).run post ↔ Always m.run fun log x ↦ post log (.ok x) := by
  rw [attempt, ExceptT.run_lift, map_eq_pure_bind, always_bind, always_iff, always_iff]
  refine forall_congr' fun log ↦ forall_congr' fun x ↦ imp_congr_right fun _ ↦ ?_
  rw [pure_eq, always_done, List.append_nil]

@[simp] theorem always_run_ofExcept {x : Except ε α} {post : List (q × r) → Except ε α → Prop} :
    Always (MonadExcept.ofExcept x : ExceptT ε (Interaction q r) α).run post ↔ post [] x := by
  cases x <;> exact Iff.rfl

/-- Whatever is answered, what is returned meets the postcondition. -/
def Returns (m : ExceptT ε (Interaction q r) α) (post : List (q × r) → α → Prop) : Prop :=
  Always m.run fun log x ↦ ∀ a, x = .ok a → post log a

theorem Returns.mono {post' : List (q × r) → α → Prop} (h : Returns m post)
    (himp : ∀ log a, post log a → post' log a) : Returns m post' :=
  Always.mono h fun log _ hx a ha ↦ himp log a (hx a ha)

@[simp] theorem returns_pure {a : α} :
    Returns (pure a : ExceptT ε (Interaction q r) α) post ↔ post [] a := by
  rw [Returns, always_run_pure]
  exact ⟨fun h ↦ h a rfl, fun h b hb ↦ Except.ok.inj hb ▸ h⟩

@[simp] theorem returns_throw {exc : ε} :
    Returns (throw exc : ExceptT ε (Interaction q r) α) post := by
  rw [Returns, always_run_throw]
  intro a ha
  cases ha

theorem returns_bind {post : List (q × r) → β → Prop} :
    Returns (m >>= f) post ↔
      Returns m fun log a ↦ Returns (f a) fun log' b ↦ post (log ++ log') b := by
  rw [Returns, always_run_bind, Returns, always_iff, always_iff]
  refine forall_congr' fun log ↦ forall_congr' fun x ↦ imp_congr_right fun _ ↦ ?_
  cases x with
  | ok a => exact ⟨fun h a' ha' ↦ Except.ok.inj ha' ▸ h, fun h ↦ h a rfl⟩
  | error exc => exact iff_of_true (fun _ hb ↦ by cases hb) fun _ ha ↦ by cases ha

/-- What does not depend on how the program has gone so far. -/
theorem returns_bind_of_forall {post : β → Prop} (h : ∀ a, Returns (f a) fun _ b ↦ post b) :
    Returns (m >>= f) fun _ b ↦ post b := by
  rw [returns_bind]
  exact always_iff.2 fun _ _ _ a _ ↦ h a

@[simp] theorem returns_request {query : q} {post : List (q × Except ε s) → s → Prop} :
    Returns (request query) post ↔ ∀ x, post [(query, .ok x)] x := by
  rw [Returns, always_run_request]
  constructor
  · exact fun h x ↦ h (.ok x) x rfl
  · rintro h _ a rfl
    exact h a

@[simp] theorem returns_attempt {post : List (q × r) → Except ε α → Prop} :
    Returns (attempt m) post ↔ Always m.run post := by
  rw [Returns, always_run_attempt, always_iff, always_iff]
  refine forall_congr' fun log ↦ forall_congr' fun x ↦ imp_congr_right fun _ ↦ ?_
  exact ⟨fun h ↦ h x rfl, fun h a ha ↦ Except.ok.inj ha ▸ h⟩

@[simp] theorem returns_ofExcept {x : Except ε α} :
    Returns (MonadExcept.ofExcept x : ExceptT ε (Interaction q r) α) post ↔
      ∀ a, x = .ok a → post [] a := by
  rw [Returns, always_run_ofExcept]

/-! ### Programs against a deterministic world -/

variable {world : q → r} {post : α → Prop} {k : α → ExceptT ε (Interaction q r) β}

/-- Against this world: what is returned, if anything is, meets the postcondition. -/
def Gives (world : q → r) (m : ExceptT ε (Interaction q r) α) (post : α → Prop) : Prop :=
  ∀ a, eval world m.run = .ok a → post a

/-- Against this world: something is returned, and it meets the postcondition. -/
def Yields (world : q → r) (m : ExceptT ε (Interaction q r) α) (post : α → Prop) : Prop :=
  ∃ a, eval world m.run = .ok a ∧ post a

theorem gives_iff : Gives world m post ↔ ¬Yields world m fun a ↦ ¬post a := by
  rw [Gives, Yields, not_exists]
  exact forall_congr' fun a ↦ by rw [not_and, not_not]

theorem Gives.mono {post' : α → Prop} (h : Gives world m post) (himp : ∀ a, post a → post' a) :
    Gives world m post' :=
  fun a ha ↦ himp a (h a ha)

theorem Yields.mono {post' : α → Prop} (h : Yields world m post) (himp : ∀ a, post a → post' a) :
    Yields world m post' := by
  obtain ⟨a, ha, hpost⟩ := h
  exact ⟨a, ha, himp a hpost⟩

theorem yields_congr {post' : α → Prop} (h : ∀ a, post a ↔ post' a) :
    Yields world m post ↔ Yields world m post' :=
  ⟨fun hy ↦ hy.mono fun a ↦ (h a).1, fun hy ↦ hy.mono fun a ↦ (h a).2⟩

theorem eval_run_bind : eval world (m >>= k).run =
    match eval world m.run with
    | .ok a => eval world (k a).run
    | .error exc => .error exc := by
  rw [ExceptT.run_bind, eval_bind]
  cases eval world m.run with
  | ok a => rfl
  | error exc => rfl

/-- The run of a program that asks, and looks at the answer itself. -/
theorem eval_attempt_bind {query : q} {k : Except ε s → ExceptT ε (Interaction q (Except ε s)) β}
    (world : q → Except ε s) :
    eval world (attempt (request query) >>= k).run = eval world (k (world query)).run := rfl

theorem trace_attempt_bind {query : q} {k : Except ε s → ExceptT ε (Interaction q (Except ε s)) β}
    (world : q → Except ε s) :
    trace world (attempt (request query) >>= k).run =
      (query, world query) :: trace world (k (world query)).run := rfl

theorem ofExcept_ok_bind {a : α} : MonadExcept.ofExcept (Except.ok a : Except ε α) >>= f = f a := rfl

theorem ofExcept_error_bind {exc : ε} :
    MonadExcept.ofExcept (Except.error exc : Except ε α) >>= f = throw exc := rfl

@[simp] theorem yields_pure {a : α} :
    Yields world (pure a : ExceptT ε (Interaction q r) α) post ↔ post a := by
  constructor
  · rintro ⟨b, hb, hpost⟩
    exact Except.ok.inj hb ▸ hpost
  · exact fun hpost ↦ ⟨a, rfl, hpost⟩

@[simp] theorem yields_throw {exc : ε} :
    Yields world (throw exc : ExceptT ε (Interaction q r) α) post ↔ False :=
  iff_of_false (fun ⟨_, ha, _⟩ ↦ nomatch ha) not_false

theorem yields_bind {post : β → Prop} :
    Yields world (m >>= k) post ↔ Yields world m fun a ↦ Yields world (k a) post := by
  rw [Yields, eval_run_bind, Yields]
  cases eval world m.run with
  | ok a =>
    constructor
    · exact fun h ↦ ⟨a, rfl, h⟩
    · rintro ⟨b, hb, h⟩
      exact Except.ok.inj hb ▸ h
  | error exc => exact iff_of_false (fun ⟨_, hb, _⟩ ↦ nomatch hb) fun ⟨_, ha, _⟩ ↦ nomatch ha

@[simp] theorem yields_ofExcept {x : Except ε α} :
    Yields world (MonadExcept.ofExcept x : ExceptT ε (Interaction q r) α) post ↔
      ∃ a, x = .ok a ∧ post a := by
  cases x with
  | ok a => exact Iff.rfl
  | error exc => exact Iff.rfl

@[simp] theorem yields_request {world : q → Except ε s} {query : q} {post : s → Prop} :
    Yields world (request query) post ↔ ∃ a, world query = .ok a ∧ post a := Iff.rfl

theorem eval_run_request {world : q → Except ε s} {query : q} :
    eval world (request query).run = world query := rfl

@[simp] theorem yields_attempt {post : Except ε α → Prop} :
    Yields world (attempt m) post ↔ post (eval world m.run) := by
  rw [Yields, attempt, ExceptT.run_lift, map_eq_pure_bind, eval_bind, pure_eq, eval_done]
  constructor
  · rintro ⟨x, hx, hpost⟩
    exact Except.ok.inj hx ▸ hpost
  · exact fun hpost ↦ ⟨_, rfl, hpost⟩

@[simp] theorem gives_pure {a : α} :
    Gives world (pure a : ExceptT ε (Interaction q r) α) post ↔ post a := by
  rw [gives_iff, yields_pure, not_not]

@[simp] theorem gives_throw {exc : ε} :
    Gives world (throw exc : ExceptT ε (Interaction q r) α) post := by
  rw [gives_iff, yields_throw]
  exact not_false

theorem gives_bind {post : β → Prop} :
    Gives world (m >>= k) post ↔ Gives world m fun a ↦ Gives world (k a) post := by
  rw [gives_iff, gives_iff, yields_bind]
  exact not_congr (yields_congr fun a ↦ by rw [gives_iff, not_not])

@[simp] theorem gives_ofExcept {x : Except ε α} :
    Gives world (MonadExcept.ofExcept x : ExceptT ε (Interaction q r) α) post ↔
      ∀ a, x = .ok a → post a := by
  rw [gives_iff, yields_ofExcept]
  simp only [not_exists, not_and, not_not]

@[simp] theorem gives_request {world : q → Except ε s} {query : q} {post : s → Prop} :
    Gives world (request query) post ↔ ∀ a, world query = .ok a → post a := Iff.rfl

@[simp] theorem gives_attempt {post : Except ε α → Prop} :
    Gives world (attempt m) post ↔ post (eval world m.run) := by
  rw [gives_iff, yields_attempt, not_not]

/-! ### Loops -/

section

variable {ι : Type w} {probe : ι → ExceptT ε (Interaction q r) (Option α)} {l : List ι}

/-- Run a probe on one item after another and keep what it finds. -/
def collect (probe : ι → ExceptT ε (Interaction q r) (Option α)) :
    List ι → ExceptT ε (Interaction q r) (List α)
  | [] => return []
  | i :: rest => do
    let found ← probe i
    return found.toList ++ (← collect probe rest)

/-- Run a probe on one item after another until it finds something. -/
def firstHit (probe : ι → ExceptT ε (Interaction q r) (Option α)) :
    List ι → ExceptT ε (Interaction q r) (Option α)
  | [] => return none
  | i :: rest => do
    match ← probe i with
    | some a => return some a
    | none => firstHit probe rest

theorem gives_collect (h : ∀ i ∈ l, Gives world (probe i) fun x ↦ ∀ a ∈ x, post a) :
    Gives world (collect probe l) fun found ↦ ∀ a ∈ found, post a := by
  induction l with
  | nil => exact gives_pure.2 nofun
  | cons i rest ih =>
    rw [collect, gives_bind]
    refine (h i List.mem_cons_self).mono fun x hx ↦ ?_
    rw [gives_bind]
    refine (ih fun j hj ↦ h j (List.mem_cons_of_mem _ hj)).mono fun found hfound ↦ ?_
    refine gives_pure.2 fun a ha ↦ ?_
    rcases List.mem_append.1 ha with ha | ha
    · exact hx a (Option.mem_toList.1 ha)
    · exact hfound a ha

/-- What is found was found by the probe on one of the items. -/
theorem returns_firstHit : Returns (firstHit probe l) fun _ x ↦ ∀ a ∈ x, ∃ i ∈ l,
    ∃ log, Ends (probe i).run log (.ok (some a)) := by
  induction l with
  | nil => exact returns_pure.2 nofun
  | cons i rest ih =>
    rw [firstHit, returns_bind]
    refine always_iff.2 fun log x hends found hfound ↦ ?_
    subst hfound
    cases found with
    | some a =>
      refine returns_pure.2 ?_
      intro a' ha'
      exact ⟨i, List.mem_cons_self, log, Option.mem_some_iff.1 ha' ▸ hends⟩
    | none =>
      refine ih.mono fun _ x hx a ha ↦ ?_
      obtain ⟨j, hj, hprobe⟩ := hx a ha
      exact ⟨j, List.mem_cons_of_mem _ hj, hprobe⟩

theorem gives_firstHit (h : ∀ i ∈ l, Gives world (probe i) fun x ↦ ∀ a ∈ x, post a) :
    Gives world (firstHit probe l) fun x ↦ ∀ a ∈ x, post a := by
  induction l with
  | nil => exact gives_pure.2 nofun
  | cons i rest ih =>
    rw [firstHit, gives_bind]
    refine (h i List.mem_cons_self).mono fun x hx ↦ ?_
    cases x with
    | some a => exact gives_pure.2 hx
    | none => exact ih fun j hj ↦ h j (List.mem_cons_of_mem _ hj)

end

end

end Interaction
