import Sentrik.Services.Validation

/-!
# Regression tests

A confirmed finding becomes a definition holding its recipe; executing it says whether the finding
still reproduces. The runners are written beside the validators, not over them.
-/

namespace Sentrik

open Interaction (request attempt)

/-- What a regression test says. -/
inductive RegressionStatus
  | fixed | still_vulnerable | inconclusive
  deriving DecidableEq, Repr

structure RegressionResult where
  status : RegressionStatus
  detail : String
  evidence : Option GuardedResponse := none

namespace Regression

/-! ### Definitions -/

def assertions : List (String × String) := [
  ("sqli", "no DB error signature and no boolean differential"),
  ("xss", "payload is not reflected unescaped"),
  ("open_redirect", "no redirect to attacker-controlled host"),
  ("bola", "cross-account object access is denied"),
  ("security_headers", "required security headers present"),
  ("info_disclosure", "no version disclosure headers") ]

def _assertion_for (check_class : String) : String :=
  (assertions.lookup check_class).getD "vulnerability no longer reproduces"

/-- Regression test definition of a confirmed finding. -/
def build_regression_definition (check_class : String) (reproduction : Dict) (title : String) : Dict := [
  ("check_class".toList, .text check_class),
  ("title".toList, .text s!"Regression: {title}"),
  ("reproduction".toList, .obj reproduction),
  ("assertion".toList, .text (_assertion_for check_class)),
  ("version".toList, .text "1.0") ]

section

variable [u : UnicodeTables] [lib : StandardLibrary]

def _send (method url : Json) (overrides : Except Raised Overrides) : Program GuardedResponse :=
  sendOverrides method url overrides

/-- The default threshold is `0.30`. -/
def _len_differs (a b : Text) (threshold : Option ℚ) : Bool :=
  lenDiffers a b (threshold.getD (3 / 10))

/-! ### Runners -/

def _regress_sqli (repro : Dict) : Program RegressionResult := do
  let url := repro.get "url"
  let param := repro.get "param"
  let method := repro.getD "method" (.text "GET")
  if (repro.get "detector").is "db_error_signature".toList then
    let resp ← _send method url (override param (repro.getD "payload" (.text "'")))
    if errorSearch resp.text then
      return ⟨.still_vulnerable, "DB error still reproduces", resp⟩
    else return ⟨.fixed, "no DB error signature; injection appears remediated", resp⟩
  else
    let baseline ← _send method url (override param (.text "1"))
    let r_true ← _send method url (override param (repro.get "true_payload"))
    let r_false ← _send method url (override param (repro.get "false_payload"))
    let differs := r_true.status_code ≠ r_false.status_code || _len_differs r_true.text r_false.text none
    if differs && !_len_differs r_true.text baseline.text (some (3 / 20)) then
      return ⟨.still_vulnerable, "boolean differential still present", r_true⟩
    else return ⟨.fixed, "boolean differential gone", r_true⟩

def _regress_xss (repro : Dict) : Program RegressionResult := do
  let payload := repro.getD "payload" (.text "")
  let marker := repro.getD "marker" (.text "")
  let resp ← _send (repro.getD "method" (.text "GET")) (repro.get "url")
    (override (repro.get "param") payload)
  let renderable := renderable_html_context resp.status_code (resp.header "content-type")
  let reflected ← MonadExcept.ofExcept
    (if renderable then reflectedIn (rawMarker marker payload) (escapedMarker marker) resp.text
      else .ok false)
  if reflected then
    return ⟨.still_vulnerable, "payload still reflected unescaped", resp⟩
  else return ⟨.fixed, "payload no longer reflected unescaped in an HTML response", resp⟩

def _regress_open_redirect : Dict → Program RegressionResult :=
  Validation.openRedirect ⟨.still_vulnerable, "app still redirects to attacker host", none⟩
    (fun resp ↦ ⟨.still_vulnerable, "still redirects to attacker host", resp⟩)
    fun resp ↦ ⟨.fixed, "redirect no longer honored", resp⟩

def _regress_headers (repro : Dict) : Program RegressionResult := do
  let url := repro.get "url"
  if !url.truthy then return ⟨.inconclusive, "no url in recipe", none⟩
  else
    let resp ← request { url }
    return ⟨.inconclusive, "re-observe headers manually", resp⟩

/-! ### Dispatch -/

/-- The runners. -/
inductive Runner
  | sqli | xss | open_redirect | headers
  deriving DecidableEq, Repr

def Runner.run : Runner → Dict → Program RegressionResult
  | sqli => _regress_sqli
  | xss => _regress_xss
  | open_redirect => _regress_open_redirect
  | headers => _regress_headers

def runners : List (Text × Runner) := [
  ("sqli".toList, .sqli),
  ("xss".toList, .xss),
  ("open_redirect".toList, .open_redirect),
  ("security_headers".toList, .headers),
  ("info_disclosure".toList, .headers) ]

/-- The runner of a definition. -/
def runnerOf (check_class : Json) : Option Runner :=
  match check_class with
  | .str name => runners.lookup name
  | _ => none

/-- The body under the handlers. -/
def dispatched (definition : Dict) : Program RegressionResult := do
  let check_class := definition.get "check_class"
  match runnerOf check_class with
  | some runner =>
    let repro ← MonadExcept.ofExcept (definition.getD "reproduction" (.obj [])).asDict
    runner.run repro
  | none =>
    if check_class.is "bola".toList then
      return ⟨.inconclusive, "BOLA regression requires session context", none⟩
    else
      return ⟨.inconclusive,
        s!"no regression runner for {String.ofList check_class.toText}", none⟩

/-- Execute a regression test. -/
def run_regression (definition : Dict) : Program RegressionResult := do
  match ← attempt (dispatched definition) with
  | .ok result => return result
  | .error (.client (.ScopeViolation reason ..)) =>
    return ⟨.inconclusive, s!"blocked by scope: {reason}", none⟩
  | .error (.client (.TargetUnreachable message)) =>
    return ⟨.inconclusive, s!"unreachable: {message}", none⟩
  | .error exc => throw exc

end

end Regression

end Sentrik
