import Sentrik.Library.Coupling
import Sentrik.Services.Regression
import Sentrik.Services.Rejections
import Sentrik.Services.Verdicts

/-!
# Validation and regression on one recipe

A finding is confirmed by a validator and later re-run by a regression runner, from the same recipe. The two
are written beside each other, so they are compared as two programs against one server (`Coupled`): what both
send is answered once.

They share every step for `xss` and `open_redirect` and for the boolean differential. For a database error
signature the validator sends one more payload before it rejects, and the runner does not: a server that shows
its error for that payload only is confirmed, and then reported as fixed (`agree_iff`).
-/

namespace Sentrik

open Interaction

open Validation Regression

namespace Regression

section

variable [u : UnicodeTables] [lib : StandardLibrary]

/-! ### Agreement -/

/-- A confirmed recipe is not fixed, and one that is still vulnerable is not rejected. -/
def VerdictsAgree (o : ValidationOutcome) (r : RegressionResult) : Prop :=
  (o.outcome = .CONFIRMED → r.status ≠ .fixed) ∧ (r.status = .still_vulnerable → o.outcome ≠ .REJECTED)

omit u lib in
theorem verdictsAgree_of_inconclusive {o : ValidationOutcome} (h : o.outcome = .INCONCLUSIVE)
    (r : RegressionResult) : VerdictsAgree o r := by
  rw [VerdictsAgree, h]
  exact ⟨nofun, fun _ ↦ nofun⟩

omit u lib in
theorem verdictsAgree_of_unsettled (o : ValidationOutcome) {r : RegressionResult}
    (h : r.status = .inconclusive) : VerdictsAgree o r := by
  rw [VerdictsAgree, h]
  exact ⟨fun _ ↦ nofun, nofun⟩

omit lib in
theorem send_eq : Regression._send = Validation._send := rfl

omit u lib in
theorem len_differs_eq : Regression._len_differs = Validation._len_differs := rfl

/-- Only the alternate payload of the validator shows an error of the database. -/
def AlternateOnly (answer : Query → Answer) (repro : Dict) : Prop :=
  let sent := Resent answer (repro.getD "method" (.text "GET")) (repro.get "url") (repro.get "param")
  (repro.get "detector").is "db_error_signature".toList = true ∧ ∃ resp resp2,
    sent (repro.getD "payload" (.text "'")) resp ∧ sent (.text "'\"") resp2 ∧
      errorSearch resp.text = false ∧ errorSearch resp2.text = true

variable {answer : Query → Answer}

/-! ### The classes -/

omit lib in
theorem coupled_xss (repro : Dict) :
    Coupled answer (_validate_xss repro) (_regress_xss repro) VerdictsAgree := by
  rw [_validate_xss, _regress_xss, send_eq]
  refine coupled_bind.2 fun resp _ ↦ ?_
  dsimp only
  cases renderable_html_context resp.status_code (resp.header "content-type") with
  | true =>
    rw [if_pos rfl]
    refine coupled_bind.2 fun reflected _ ↦ ?_
    cases reflected with
    | true => exact coupled_pure.2 ⟨(by rintro - ⟨⟩), (by rintro - ⟨⟩)⟩
    | false =>
      rw [if_neg Bool.false_ne_true, if_neg Bool.false_ne_true]
      split
      · exact coupled_pure.2 ⟨(by rintro ⟨⟩), (by rintro ⟨⟩)⟩
      · exact coupled_pure.2 ⟨(by rintro ⟨⟩), (by rintro ⟨⟩)⟩
  | false =>
    -- the runner does not look for the payload, and the validator confirms nothing
    refine coupled_bind_left.2 fun reflected _ ↦ ?_
    cases reflected with
    | true => exact coupled_pure.2 ⟨(by rintro ⟨⟩), (by rintro ⟨⟩)⟩
    | false =>
      rw [if_neg Bool.false_ne_true]
      split
      · exact coupled_pure.2 ⟨(by rintro ⟨⟩), (by rintro ⟨⟩)⟩
      · exact coupled_pure.2 ⟨(by rintro ⟨⟩), (by rintro ⟨⟩)⟩

omit lib in
/-- The probe of a redirect ends in one of three ways, the same on both sides. -/
theorem coupled_openRedirect {α β : Type} {rel : α → β → Prop} {blocked : α} {blocked' : β}
    {pointed absent : GuardedResponse → α} {pointed' absent' : GuardedResponse → β} (repro : Dict)
    (hblocked : rel blocked blocked') (hpointed : ∀ resp, rel (pointed resp) (pointed' resp))
    (habsent : ∀ resp, rel (absent resp) (absent' resp)) :
    Coupled answer (openRedirect blocked pointed absent repro)
      (openRedirect blocked' pointed' absent' repro) rel := by
  rw [openRedirect, openRedirect]
  refine coupled_bind.2 fun overrides _ ↦ coupled_bind.2 fun x _ ↦ ?_
  dsimp only
  split
  next => exact coupled_pure.2 hblocked
  next => exact gives_throw
  next resp _ =>
    refine coupled_bind.2 fun points _ ↦ ?_
    cases points with
    | true => exact coupled_pure.2 (hpointed resp)
    | false => exact coupled_pure.2 (habsent resp)

omit lib in
theorem coupled_open_redirect (repro : Dict) :
    Coupled answer (_validate_open_redirect repro) (_regress_open_redirect repro) VerdictsAgree := by
  refine coupled_openRedirect repro ?_ (fun resp ↦ ?_) fun resp ↦ ?_
  · exact ⟨fun _ ↦ nofun, fun _ ↦ nofun⟩
  · exact ⟨fun _ ↦ nofun, fun _ ↦ nofun⟩
  · exact ⟨nofun, nofun⟩

/-- **The boolean differential**: the same requests and the same comparison. -/
theorem coupled_differential {repro : Dict}
    (hdetector : (repro.get "detector").is "db_error_signature".toList = false) :
    Coupled answer (_validate_sqli repro) (_regress_sqli repro) VerdictsAgree := by
  rw [_validate_sqli, _regress_sqli, send_eq, len_differs_eq]
  dsimp only
  rw [hdetector, if_neg Bool.false_ne_true, if_neg Bool.false_ne_true]
  split
  next =>
    refine coupled_bind.2 fun baseline _ ↦ coupled_bind.2 fun r_true _ ↦ coupled_bind.2 fun r_false _ ↦ ?_
    dsimp only
    cases decide (r_true.status_code ≠ r_false.status_code) ||
        Validation._len_differs r_true.text r_false.text none with
    | true =>
      cases Validation._len_differs r_true.text baseline.text (some (3 / 20)) with
      | true => exact coupled_pure.2 ⟨(by rintro ⟨⟩), (by rintro ⟨⟩)⟩
      | false => exact coupled_pure.2 ⟨(by rintro - ⟨⟩), (by rintro - ⟨⟩)⟩
    | false => exact coupled_pure.2 ⟨(by rintro ⟨⟩), (by rintro ⟨⟩)⟩
  next =>
    -- the validator knows no other detector
    exact coupled_of_left (gives_pure.2 fun r ↦ verdictsAgree_of_inconclusive rfl r)

/-- **The error signature**: they part exactly where the second payload decides. -/
theorem coupled_signature {repro : Dict}
    (hdetector : (repro.get "detector").is "db_error_signature".toList = true) :
    Coupled answer (_validate_sqli repro) (_regress_sqli repro) VerdictsAgree ↔
      ¬AlternateOnly answer repro := by
  rw [_validate_sqli, _regress_sqli, send_eq, len_differs_eq]
  dsimp only
  rw [hdetector, if_pos rfl, if_pos rfl, coupled_bind, gives_iff, yields_resent, AlternateOnly,
    and_iff_right hdetector]
  refine not_congr (exists_congr fun resp ↦ ?_)
  rw [exists_and_left]
  refine and_congr_right fun _ ↦ ?_
  cases hfound : errorSearch resp.text with
  | true =>
    refine iff_of_false (not_not.2 ?_) (by rintro ⟨_, -, ⟨⟩, -⟩)
    exact coupled_pure.2 ⟨(by rintro - ⟨⟩), (by rintro - ⟨⟩)⟩
  | false =>
    rw [if_neg Bool.false_ne_true, if_neg Bool.false_ne_true, coupled_bind_left, gives_iff, not_not,
      yields_resent]
    refine exists_congr fun resp2 ↦ and_congr_right fun _ ↦ ?_
    cases errorSearch resp2.text with
    | true => exact iff_of_true (fun h ↦ (coupled_pure.1 h).1 rfl rfl) ⟨rfl, rfl⟩
    | false =>
      refine iff_of_false (not_not.2 ?_) (by rintro ⟨-, ⟨⟩⟩)
      exact coupled_pure.2 ⟨(by rintro ⟨⟩), (by rintro ⟨⟩)⟩

theorem coupled_sqli (repro : Dict) :
    Coupled answer (_validate_sqli repro) (_regress_sqli repro) VerdictsAgree ↔
      ¬AlternateOnly answer repro := by
  cases hdetector : (repro.get "detector").is "db_error_signature".toList with
  | true => exact coupled_signature hdetector
  | false => exact iff_of_true (coupled_differential hdetector) fun h ↦ nomatch hdetector.symm.trans h.1

/-! ### The handlers -/

variable [w : WordTables]

/-- What the handlers turn an exception into is neither verdict. -/
theorem coupled_handlers (check_class : String) {repro : Dict} (hrepro : repro.isEmpty = false)
    (sessions : List AuthSession) (definition : Dict) :
    Coupled answer (validate_finding check_class repro sessions) (run_regression definition)
        VerdictsAgree ↔
      Coupled answer (Validation.dispatched check_class repro sessions)
        (Regression.dispatched definition) VerdictsAgree := by
  rw [validate_finding, hrepro, if_neg Bool.false_ne_true, run_regression, coupled_attempt]
  constructor
  · intro h o ho r hr
    rw [ho, hr] at h
    exact coupled_pure.1 h
  · intro h
    cases ho : eval answer (Validation.dispatched check_class repro sessions).run with
    | error exc =>
      refine coupled_of_left ?_
      split
      next hok => cases hok
      next => exact gives_pure.2 fun r ↦ verdictsAgree_of_inconclusive rfl r
      next => exact gives_pure.2 fun r ↦ verdictsAgree_of_inconclusive rfl r
      next => exact gives_throw
    | ok o =>
      refine gives_pure.2 ?_
      cases hr : eval answer (Regression.dispatched definition).run with
      | ok r => exact gives_pure.2 (h o ho r hr)
      | error exc =>
        split
        next hok => cases hok
        next => exact gives_pure.2 (verdictsAgree_of_unsettled o rfl)
        next => exact gives_pure.2 (verdictsAgree_of_unsettled o rfl)
        next => exact gives_throw

/-- The classes that both sides re-run with the recipe alone. -/
def sharedClasses : List String := ["sqli", "xss", "open_redirect"]

/-- **Where the two agree.** -/
theorem agree_iff (answer : Query → Answer) {check_class : String} (hclass : check_class ∈ sharedClasses)
    (repro : Dict) (sessions : List AuthSession) (title : String) :
    Coupled answer (validate_finding check_class repro sessions)
        (run_regression (build_regression_definition check_class repro title)) VerdictsAgree ↔
      ¬(check_class = "sqli" ∧ AlternateOnly answer repro) := by
  cases hrepro : repro.isEmpty with
  | true =>
    obtain rfl := List.isEmpty_iff.1 hrepro
    refine iff_of_true ?_ fun h ↦ nomatch h.2.1
    exact coupled_of_left (gives_pure.2 fun r ↦ verdictsAgree_of_inconclusive rfl r)
  | false =>
    rw [coupled_handlers check_class hrepro]
    simp only [sharedClasses, List.mem_cons, List.not_mem_nil, or_false] at hclass
    rcases hclass with rfl | rfl | rfl
    · rw [and_iff_right rfl]
      exact coupled_sqli repro
    · exact iff_of_true (coupled_xss repro) fun h ↦ nomatch h.1
    · exact iff_of_true (coupled_open_redirect repro) fun h ↦ nomatch h.1

end

/-! ### An error for one payload only -/

section

attribute [local instance] asciiTables asciiWords

/-- A library that searches for alternatives, each read as a literal. -/
@[reducible] def alternativesLibrary : StandardLibrary :=
  { literalLibrary with
    search := fun pattern text ↦ (pattern.splitOn '|').any fun p ↦ Text.hasInfix p text }

attribute [local instance] alternativesLibrary

def quoteRecipe : Dict := Dict.recipe [
  ("method", .text "GET"),
  ("url", .text "https://app.example/items"),
  ("param", .text "q"),
  ("payload", .text "'"),
  ("detector", .text "db_error_signature") ]

/-- A target that quotes its identifiers: a single quote alone breaks nothing. -/
def quotingTarget (query : Query) : Answer := .ok {
  status_code := 200
  headers := []
  text :=
    match query.params with
    | some [(_, .str ['\'', '"'])] => "syntax error at or near".toList
    | _ => "no items".toList
  url := "https://app.example/items".toList
  request_method := query.method
  request_headers := []
  request_body := none }

/-- It is confirmed by the validator, and fixed for the runner. -/
theorem confirmed_and_fixed : ∃ o r,
    eval quotingTarget (validate_finding "sqli" quoteRecipe []).run = .ok o ∧
      eval quotingTarget (run_regression (build_regression_definition "sqli" quoteRecipe "q")).run = .ok r ∧
      o.outcome = .CONFIRMED ∧ r.status = .fixed :=
  ⟨_, _, rfl, rfl, rfl, rfl⟩

theorem agree_iff_quoting :
    Coupled quotingTarget (validate_finding "sqli" quoteRecipe [])
        (run_regression (build_regression_definition "sqli" quoteRecipe "q")) VerdictsAgree ↔
      ¬("sqli" = "sqli" ∧ AlternateOnly quotingTarget quoteRecipe) :=
  agree_iff quotingTarget (by decide) quoteRecipe [] "q"

end

end Regression

end Sentrik
