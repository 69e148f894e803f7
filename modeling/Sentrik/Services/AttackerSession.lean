import Sentrik.Services.Emissions
import Sentrik.Services.Verdicts

/-!
# Whose session proves an object finding

`BolaCheck` works on ordered pairs of sessions and skips a session with itself. Its recipe keeps the roles
only, and `_validate_bola` acts as the first active session of the attacker's role. Accounts may share a role
(`user` is the default), so that session can be the victim's own: the owner reads its object, and the finding
is confirmed.

`acts_as_other_iff` says for every finding and every confirmation when that is so.
-/

namespace Sentrik

open Interaction

open Validation

namespace Checks

/-! ### Sessions by position -/

/-- The active sessions with their positions, as the check numbers them. -/
def activeSessions (sessions : List AuthSession) : List (AuthSession × ℕ) :=
  (sessions.filter (!·.expired)).zipIdx

theorem eq_of_mem_activeSessions {sessions : List AuthSession} {s t : AuthSession × ℕ}
    (hs : s ∈ activeSessions sessions) (ht : t ∈ activeSessions sessions) (h : s.2 = t.2) : s = t := by
  have hs' := List.mem_zipIdx_iff_getElem?.1 hs
  have ht' := List.mem_zipIdx_iff_getElem?.1 ht
  rw [h, ht'] at hs'
  exact Prod.ext (Option.some.inj hs').symm h

/-- The session a validator picks is the first one of its role. -/
theorem first_of_attackerSession {sessions : List AuthSession} {role : Text} {a : AuthSession}
    (h : attackerSession sessions role = some a) :
    a.role_name = role ∧ ∃ k, (a, k) ∈ activeSessions sessions ∧
      ∀ s ∈ activeSessions sessions, s.1.role_name = role → k ≤ s.2 := by
  have hfind : (sessions.filter (!·.expired)).find? (fun s ↦ decide (s.role_name = role)) = some a := by
    rw [List.find?_filter, ← h, attackerSession]
    congr 1
    funext s
    cases s.expired <;> simp
  obtain ⟨hrole, before, after, hsplit, hbefore⟩ := List.find?_eq_some_iff_append.1 hfind
  refine ⟨of_decide_eq_true hrole, before.length, ?_, ?_⟩
  · refine List.mem_zipIdx_iff_getElem?.2 ?_
    show (sessions.filter (!·.expired))[before.length]? = some a
    rw [hsplit, List.getElem?_append_right (le_refl _), Nat.sub_self]
    rfl
  · intro s hs hsrole
    by_contra hlt
    rw [not_le] at hlt
    have hget := List.mem_zipIdx_iff_getElem?.1 hs
    rw [hsplit, List.getElem?_append_left hlt] at hget
    -- it would be one that was passed over
    have hskipped := hbefore s.1 (List.mem_of_getElem? hget)
    rw [decide_eq_true hsrole] at hskipped
    cases hskipped

section

variable [u : UnicodeTables] [lib : StandardLibrary]

/-! ### Findings and confirmations -/

/-- In a run of the check this ordered pair of active sessions gives the finding. -/
def EmittedFor (ctx : CheckContext) (attacker victim : AuthSession × ℕ) (F : RawFinding) : Prop :=
  attacker ∈ activeSessions ctx.sessions ∧ victim ∈ activeSessions ctx.sessions ∧
    ∃ log, Ends (BolaCheck._pair ctx (attacker, victim)).run log (.ok (some F))

/-- The validation confirms by a session, on the response to this call. -/
structure ConfirmedBySession (log : List Exchange) (o : ValidationOutcome) (query : Query) : Prop where
  confirmed : o.outcome = .CONFIRMED
  by_session : o.method = "cross_account_session"
  /-- The last exchange is the one that is kept as evidence. -/
  confirming : ∃ resp, log.getLast? = some (query, .ok resp) ∧ o.evidence = some resp

/-- The call carries the headers of an active session other than the victim's. -/
def ActsAsOther (sessions : List AuthSession) (victim : AuthSession × ℕ) (query : Query) : Prop :=
  ∃ s ∈ activeSessions sessions, s.2 ≠ victim.2 ∧ query.headers = some s.1.headers

/-- The victim has the first active session of the role, and no other active session has its headers. -/
def OwnSession (sessions : List AuthSession) (role : Text) (victim : AuthSession × ℕ) : Prop :=
  victim.1.role_name = role ∧
    (∀ s ∈ activeSessions sessions, s.1.role_name = role → victim.2 ≤ s.2) ∧
    ∀ s ∈ activeSessions sessions, s.2 ≠ victim.2 → s.1.headers ≠ victim.1.headers

/-! ### The check -/

/-- Every finding of a run is one of a pair. -/
theorem exists_emittedFor {ctx : CheckContext} {log : List Exchange} {findings : List RawFinding}
    (h : Ends (BolaCheck.run ctx).run log (.ok findings)) {F : RawFinding} (hF : F ∈ findings) :
    ∃ attacker victim, attacker.2 ≠ victim.2 ∧ EmittedFor ctx attacker victim F := by
  have hrun : Returns (BolaCheck.run ctx) fun _ findings ↦ ∀ F ∈ findings,
      ∃ pair ∈ (activeSessions ctx.sessions).flatMap fun a ↦ (activeSessions ctx.sessions).map (a, ·),
        ∃ log, Ends (BolaCheck._pair ctx pair).run log (.ok (some F)) := by
    rw [BolaCheck.run]
    split
    · exact returns_pure.2 (by rintro F ⟨⟩)
    rw [returns_bind]
    refine returns_firstHit.mono fun _ x hx ↦ returns_pure.2 fun F hF ↦ ?_
    exact hx F (Option.mem_toList.1 hF)
  obtain ⟨pair, hpair, log', hends⟩ := always_iff.1 hrun log _ h findings rfl F hF
  obtain ⟨attacker, hattacker, victim, hvictim, rfl⟩ : ∃ attacker ∈ activeSessions ctx.sessions,
      ∃ victim ∈ activeSessions ctx.sessions, (attacker, victim) = pair := by
    simpa only [List.mem_flatMap, List.mem_map] using hpair
  refine ⟨attacker, victim, fun hsame ↦ ?_, hattacker, hvictim, log', hends⟩
  rw [BolaCheck._pair, if_pos hsame] at hends
  cases hends

/-- The recipe of a pair keeps the roles. -/
theorem exists_finding_of_emittedFor {ctx : CheckContext} {attacker victim : AuthSession × ℕ}
    {F : RawFinding} (h : EmittedFor ctx attacker victim F) :
    ∃ obj url, F = BolaCheck._finding attacker.1 victim.1 obj url := by
  obtain ⟨-, -, log, hends⟩ := h
  have hpair : Returns (BolaCheck._pair ctx (attacker, victim)) fun _ x ↦ ∀ F ∈ x,
      ∃ obj url, F = BolaCheck._finding attacker.1 victim.1 obj url := by
    rw [BolaCheck._pair]
    split
    · exact returns_pure.2 (by rintro F ⟨⟩)
    split
    · exact returns_pure.2 (by rintro F ⟨⟩)
    next obj _ _ =>
    rw [BolaCheck._attempt, returns_bind, returns_ofExcept]
    rintro ⟨url, params⟩ _
    have hfound : ∀ F ∈ some (BolaCheck._finding attacker.1 victim.1 obj.toText url),
        ∃ obj url, F = BolaCheck._finding attacker.1 victim.1 obj url :=
      fun F hF ↦ ⟨obj.toText, url, (Option.some.inj hF).symm⟩
    refine returns_bind_of_forall fun x ↦ ?_
    dsimp only
    split
    · exact returns_pure.2 (by rintro F ⟨⟩)
    split
    · refine returns_bind_of_forall fun anon ↦ ?_
      split
      · exact returns_pure.2 hfound
      split
      · exact returns_pure.2 (by rintro F ⟨⟩)
      · exact returns_pure.2 hfound
    · exact returns_pure.2 (by rintro F ⟨⟩)
  exact always_iff.1 hpair log _ hends (some F) rfl F rfl

/-! ### The validator -/

omit lib in
/-- A confirmation by a session has the headers of the session that was picked. -/
theorem returns_by_session (repro : Dict) (sessions : List AuthSession) :
    Returns (_validate_bola repro sessions) fun log o ↦
      o.outcome = .CONFIRMED → o.method = "cross_account_session" → ∃ attacker query answer,
        attackerSession sessions (repro.getD "attacker_role" (.text "")).toText = some attacker ∧
          log.getLast? = some (query, answer) ∧ query.headers = some attacker.headers := by
  rw [_validate_bola]
  dsimp only
  split
  · exact returns_pure.2 (by rintro ⟨⟩)
  rw [returns_bind, returns_attempt, always_run_request]
  intro answer
  split
  · exact returns_pure.2 (by rintro ⟨⟩)
  · exact returns_throw
  split
  · exact returns_pure.2 fun _ (hmethod : "anon_access" = _) ↦ absurd hmethod (by decide)
  split
  · exact returns_pure.2 (by rintro ⟨⟩)
  next attacker hattacker =>
  rw [returns_bind, returns_attempt, always_run_request]
  intro answer
  split
  · exact returns_pure.2 (by rintro ⟨⟩)
  · exact returns_throw
  split
  · exact returns_pure.2 fun _ _ ↦ ⟨attacker, _, _, hattacker, rfl, rfl⟩
  split
  · exact returns_pure.2 (by rintro ⟨⟩)
  · exact returns_pure.2 (by rintro ⟨⟩)

variable [w : WordTables]

theorem returns_confirmed_by_session (repro : Dict) (hrepro : repro.isEmpty = false)
    (sessions : List AuthSession) :
    Returns (validate_finding "bola" repro sessions) fun log o ↦
      o.outcome = .CONFIRMED → o.method = "cross_account_session" → ∃ attacker query answer,
        attackerSession sessions (repro.getD "attacker_role" (.text "")).toText = some attacker ∧
          log.getLast? = some (query, answer) ∧ query.headers = some attacker.headers := by
  rw [validate_finding, hrepro, if_neg Bool.false_ne_true, dispatched, if_pos rfl, returns_bind,
    returns_attempt]
  refine always_iff.2 fun log x hx ↦ ?_
  split
  next o =>
    refine returns_pure.2 ?_
    rw [List.append_nil]
    exact always_iff.1 (returns_by_session repro sessions) log _ hx o rfl
  next => exact returns_pure.2 (by rintro ⟨⟩)
  next => exact returns_pure.2 (by rintro ⟨⟩)
  next => exact returns_throw

/-- So does a confirmation of a finding of a pair, and the role is that of its attacker. -/
theorem exists_session_of_confirmed {ctx : CheckContext} {attacker victim : AuthSession × ℕ}
    {F : RawFinding} (hF : EmittedFor ctx attacker victim F) {log : List Exchange} {o : ValidationOutcome}
    {query : Query}
    (hends : Ends (validate_finding F.check_class F.reproduction ctx.sessions).run log (.ok o))
    (hconfirmed : ConfirmedBySession log o query) :
    ∃ a, attackerSession ctx.sessions attacker.1.role_name = some a ∧ query.headers = some a.headers := by
  obtain ⟨obj, url, rfl⟩ := exists_finding_of_emittedFor hF
  have hvalidate := returns_confirmed_by_session
    (BolaCheck._finding attacker.1 victim.1 obj url).reproduction rfl ctx.sessions
  obtain ⟨a, query', answer, ha, hlast, hheaders⟩ :=
    always_iff.1 hvalidate log _ hends o rfl hconfirmed.confirmed hconfirmed.by_session
  obtain ⟨resp, hlast', -⟩ := hconfirmed.confirming
  obtain ⟨rfl, -⟩ := Prod.mk.inj (Option.some.inj (hlast.symm.trans hlast'))
  have hrole : ((BolaCheck._finding attacker.1 victim.1 obj url).reproduction.getD "attacker_role"
      (.text "")).toText = attacker.1.role_name := by
    simp only [BolaCheck._finding, Dict.getD_recipe_cons, String.reduceEq, if_false, if_true]
    rfl
  exact ⟨a, hrole ▸ ha, hheaders⟩

/-- **Whose headers confirm.** Another session than the victim's, unless the victim's is the first of the
attacker's role. -/
theorem acts_as_other_iff {ctx : CheckContext} {attacker victim : AuthSession × ℕ} {F : RawFinding}
    (hF : EmittedFor ctx attacker victim F) {log : List Exchange} {o : ValidationOutcome} {query : Query}
    (hends : Ends (validate_finding F.check_class F.reproduction ctx.sessions).run log (.ok o))
    (hconfirmed : ConfirmedBySession log o query) :
    ActsAsOther ctx.sessions victim query ↔ ¬OwnSession ctx.sessions attacker.1.role_name victim := by
  obtain ⟨a, ha, hheaders⟩ := exists_session_of_confirmed hF hends hconfirmed
  obtain ⟨hrole, k, hk, hfirst⟩ := first_of_attackerSession ha
  constructor
  · rintro ⟨s, hs, hne, hcarries⟩ ⟨hvictim, hleast, hother⟩
    -- both come first, so the session that was picked is the victim's
    have hsame : (a, k) = victim :=
      eq_of_mem_activeSessions hk hF.2.1 (Nat.le_antisymm (hfirst victim hF.2.1 hvictim) (hleast _ hk hrole))
    refine hother s hs hne ?_
    rw [← hsame]
    exact Option.some.inj (hcarries.symm.trans hheaders)
  · intro hown
    by_cases hpos : k = victim.2
    · obtain rfl : (a, k) = victim := eq_of_mem_activeSessions hk hF.2.1 hpos
      have hequal : ∃ s ∈ activeSessions ctx.sessions, s.2 ≠ k ∧ s.1.headers = a.headers := by
        by_contra hnone
        push Not at hnone
        exact hown ⟨hrole, hfirst, hnone⟩
      obtain ⟨s, hs, hne, hsame⟩ := hequal
      exact ⟨s, hs, hne, hheaders.trans (congrArg some hsame.symm)⟩
    · exact ⟨(a, k), hk, hpos, hheaders⟩

end

/-! ### Two accounts of one role -/

section

attribute [local instance] asciiTables asciiWords

/-- Put an id in its place. -/
def fillId (obj : Text) : Text → Text
  | '{' :: 'i' :: 'd' :: '}' :: rest => obj ++ fillId obj rest
  | c :: rest => c :: fillId obj rest
  | [] => []

/-- A library that knows the place of an id. -/
@[reducible] def placeLibrary : StandardLibrary :=
  { literalLibrary with
    search := fun _ text ↦ Text.hasInfix "{id}".toList text
    sub := fun _ obj text ↦ .ok (fillId obj text) }

attribute [local instance] placeLibrary

def alice : AuthSession where
  role_name := "user".toList
  headers := [(.text "Authorization", .text "Bearer a")]
  owns_object_ids := [.text "42"]

def mallory : AuthSession where
  role_name := "user".toList
  headers := [(.text "Authorization", .text "Bearer m")]

theorem digits_length : "0123456789".toList.length = 10 := rfl

theorem digits_hex : ∀ c ∈ "0123456789".toList, c ∈ "0123456789abcdef".toList :=
  fun _ ↦ List.mem_append_left "abcdef".toList

def orderContext : CheckContext where
  endpoint := {
    method := "GET".toList
    url := "https://app.example/orders/{id}".toList
    path_template := "/orders/{id}".toList
    parameters := [] }
  sessions := [alice, mallory]
  tokens _ := ⟨"0123456789".toList, digits_length, digits_hex⟩

/-- A target that shows the order to those with these headers. -/
def orderTarget (shows : Option Overrides → Bool) (query : Query) : Answer := .ok {
  status_code := if shows query.headers then 200 else 403
  headers := []
  text := if shows query.headers then "order 42".toList else "no".toList
  url := "https://app.example/orders/42".toList
  request_method := query.method
  request_headers := []
  request_body := none }

/-- Any account may read the order. -/
def openTarget : Query → Answer := orderTarget Option.isSome

/-- Its owner may. -/
def closedTarget : Query → Answer := orderTarget fun headers ↦
  match headers with
  | some [(_, .str t)] => t = "Bearer a".toList
  | _ => false

def orderFinding : RawFinding :=
  BolaCheck._finding mallory alice "42".toList "https://app.example/orders/42".toList

theorem emittedFor_order : EmittedFor orderContext (mallory, 1) (alice, 0) orderFinding := by
  have hactive : activeSessions orderContext.sessions = [(alice, 0), (mallory, 1)] := rfl
  rw [EmittedFor, hactive]
  exact ⟨List.mem_cons_of_mem _ List.mem_cons_self, List.mem_cons_self, _,
    ends_of_eval (f := openTarget) rfl⟩

/-- The validation of the finding, when the hole is closed. -/
def ownersLog : List Exchange :=
  trace closedTarget (validate_finding "bola" orderFinding.reproduction [alice, mallory]).run

def ownersQuery : Query where
  url := .text "https://app.example/orders/42"
  headers := some alice.headers

theorem confirmed_order : ∃ o,
    Ends (validate_finding orderFinding.check_class orderFinding.reproduction orderContext.sessions).run
        ownersLog (.ok o) ∧
      ConfirmedBySession ownersLog o ownersQuery :=
  ⟨_, ends_of_eval rfl, rfl, rfl, _, rfl, rfl⟩

/-- The finding is confirmed by the owner reading its own object. -/
theorem owner_confirms : ∃ o,
    EmittedFor orderContext (mallory, 1) (alice, 0) orderFinding ∧
      Ends (validate_finding orderFinding.check_class orderFinding.reproduction
        orderContext.sessions).run ownersLog (.ok o) ∧
      ConfirmedBySession ownersLog o ownersQuery ∧
      ¬ActsAsOther orderContext.sessions (alice, 0) ownersQuery := by
  obtain ⟨o, hends, hconfirmed⟩ := confirmed_order
  refine ⟨o, emittedFor_order, hends, hconfirmed, ?_⟩
  rintro ⟨s, hs, hne, hheaders⟩
  have hactive : activeSessions orderContext.sessions = [(alice, 0), (mallory, 1)] := rfl
  rw [hactive, List.mem_cons, List.mem_singleton] at hs
  rcases hs with rfl | rfl
  · exact hne rfl
  · simp [ownersQuery, alice, mallory, Json.text] at hheaders

theorem acts_as_other_iff_order :
    ActsAsOther orderContext.sessions (alice, 0) ownersQuery ↔
      ¬OwnSession orderContext.sessions mallory.role_name (alice, 0) := by
  obtain ⟨o, hends, hconfirmed⟩ := confirmed_order
  exact acts_as_other_iff emittedFor_order hends hconfirmed

end

end Checks

end Sentrik
