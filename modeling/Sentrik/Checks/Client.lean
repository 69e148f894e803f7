import Sentrik.Library.Interaction
import Sentrik.Library.Json
import Sentrik.Security.HttpClient

/-!
# Programs over the guarded client

A check, a validator and a regression runner send requests through the guarded client and read what
comes back. Here each is an interaction: its questions are the calls of the client, the answers are the
responses of those calls and the exceptions they raise. Nothing is said about the client: it may answer
anything.

Such a program works on decoded documents (a recipe, a manifest), so a value it reads may be of any
type, and reading it as a text, a dictionary or a number can raise. What it passes on to the client is
kept as it passes it (`Query`).

**The runtime's library is a parameter.** Regular expressions, number conversions, the JSON decoder and
text formatting are supplied by an instance of `StandardLibrary`, without laws.
-/

namespace Sentrik

/-! ### Exceptions -/

/-- What a program can raise: an exception of the client, or one of reading a value as something it is
not. The messages of the latter are in no result. -/
inductive Raised
  | client (exc : PyExc)
  | TypeError
  | AttributeError
  | ValueError
  | KeyError
  | OverflowError
  | RecursionError
  | PatternError
  deriving DecidableEq, Repr

/-! ### The runtime's library -/

/-- A floating-point number, as far as it is compared. -/
inductive PyFloat
  | nan
  | infinity (negative : Bool)
  | finite (value : ℚ)
  deriving DecidableEq, Repr

/-- `x > bound` -/
def PyFloat.gt : PyFloat → ℚ → Bool
  | nan, _ => false
  | infinity negative, _ => !negative
  | finite value, bound => bound < value

/-- What programs use of the runtime's library. Supplied functions with no laws. -/
class StandardLibrary where
  /-- Compile a pattern. -/
  compile : Text → Except Raised Unit
  /-- Whether a pattern matches somewhere in a text, in any case. -/
  search : Text → Text → Bool
  /-- Decode a document. -/
  loads : Text → Except Raised Json
  /-- The floating-point number a value stands for, and its rendering. -/
  float : Json → Except Raised PyFloat
  render : PyFloat → String
  /-- The integer a value stands for. -/
  int : Json → Except Raised ℤ
  /-- Whether a pattern matches a whole text, in any case. -/
  fullmatch : Text → Text → Bool
  /-- Replace every match of a pattern, in any case, by a template. -/
  sub : Text → Text → Text → Except Raised Text
  /-- Fill the named places of a template. -/
  format : Text → List (Text × Text) → Except Raised Text

/-! ### Calls -/

/-- A dictionary of parameters, form fields or headers, as it is written. -/
abbrev Overrides := List (Json × Json)

/-- A call of the client, with what is passed to it. -/
structure Query where
  method : Text := "GET".toList
  url : Json
  headers : Option Overrides := none
  params : Option Overrides := none
  data : Option Overrides := none
  json : Option Dict := none
  max_redirects : ℕ := 3

/-- How a call ends. -/
abbrev Answer := Except Raised GuardedResponse

/-- A program over the client. -/
abbrev Program (α : Type) := ExceptT Raised (Interaction Query Answer) α

/-- A call and how it ended. -/
abbrev Exchange := Query × Answer

/-! ### Steps and loops that can raise -/

theorem exists_of_bind_eq_ok {ε α β : Type} {x : Except ε α} {f : α → Except ε β} {b : β}
    (h : x >>= f = .ok b) : ∃ a, x = .ok a ∧ f a = .ok b := by
  cases x with
  | error e => cases h
  | ok a => exact ⟨a, rfl, h⟩

/-- A loop that raises at the first element that raises has a result when all have. -/
theorem mapM_eq_ok_iff {ε α β : Type} {f : α → Except ε β} {l : List α} {ys : List β} :
    l.mapM f = .ok ys ↔ l.map f = ys.map .ok := by
  induction l generalizing ys with
  | nil =>
    rw [List.mapM_nil, List.map_nil]
    constructor
    · intro h
      rw [← Except.ok.inj h, List.map_nil]
    · intro h
      rw [List.map_eq_nil_iff.1 h.symm]
      rfl
  | cons a l ih =>
    rw [List.mapM_cons, List.map_cons]
    cases ha : f a with
    | error e =>
      refine iff_of_false (fun h ↦ by cases h) fun h ↦ ?_
      cases ys with
      | nil => cases h
      | cons y ys => cases (List.cons.inj h).1
    | ok b =>
      cases hl : l.mapM f with
      | error e =>
        refine iff_of_false (fun h ↦ by cases h) fun h ↦ ?_
        cases ys with
        | nil => cases h
        | cons y ys =>
          have htail := ih.2 (List.cons.inj h).2
          rw [hl] at htail
          cases htail
      | ok bs =>
        constructor
        · intro h
          obtain rfl := Except.ok.inj h
          rw [List.map_cons, ← ih.1 hl]
        · intro h
          cases ys with
          | nil => cases h
          | cons y ys =>
            have htail := ih.2 (List.cons.inj h).2
            rw [hl] at htail
            rw [← Except.ok.inj (List.cons.inj h).1, ← Except.ok.inj htail]
            rfl

theorem mapM_isOk {ε α β : Type} {f : α → Except ε β} {l : List α} :
    (∃ r, l.mapM f = .ok r) ↔ ∀ a ∈ l, ∃ b, f a = .ok b := by
  induction l with
  | nil => exact iff_of_true ⟨[], rfl⟩ fun a ha ↦ by cases ha
  | cons a l ih =>
    rw [List.mapM_cons, List.forall_mem_cons, ← ih]
    cases f a with
    | error e => exact iff_of_false (by rintro ⟨r, hr⟩; cases hr) (by rintro ⟨⟨b, hb⟩, -⟩; cases hb)
    | ok b =>
      cases l.mapM f with
      | error e => exact iff_of_false (by rintro ⟨r, hr⟩; cases hr) (by rintro ⟨-, r, hr⟩; cases hr)
      | ok r => exact iff_of_true ⟨_, rfl⟩ ⟨⟨b, rfl⟩, r, rfl⟩

open Interaction (request)

/-- The query passes exactly these overrides, as parameters or as form fields. -/
def Query.Carries (query : Query) (overrides : Overrides) : Prop :=
  query.params = some overrides ∨ query.data = some overrides

/-! ### Responses -/

/-- `resp.headers.get(name, "")` -/
def GuardedResponse.header (resp : GuardedResponse) (name : String) : Text :=
  (resp.headers.lookup name.toList).getD []

/-- The response has a header of this name. -/
def GuardedResponse.hasHeader (resp : GuardedResponse) (name : Text) : Bool :=
  resp.headers.any (·.1 = name)

/-! ### Reading values -/

/-- A dictionary with one entry: its key has to be hashable. -/
def override (param value : Json) : Except Raised Overrides :=
  match param with
  | .arr _ | .obj _ => .error .TypeError
  | _ => .ok [(param, value)]

theorem eq_of_override {param value : Json} {o : Overrides} (h : override param value = .ok o) :
    o = [(param, value)] := by
  cases param with
  | arr _ => cases h
  | obj _ => cases h
  | _ => exact (Except.ok.inj h).symm

end Sentrik

namespace Dict

/-- A dictionary written as its entries. -/
def recipe (entries : List (String × Json)) : Dict := entries.map fun e ↦ (e.1.toList, e.2)

/-- `d.get(key)` -/
def get (d : Dict) (key : String) : Json := (d.get? key.toList).getD .null

/-- `d.get(key, default)` -/
def getD (d : Dict) (key : String) (default : Json) : Json := (d.get? key.toList).getD default

theorem get_eq_getD (d : Dict) (key : String) : d.get key = d.getD key .null := rfl

theorem getD_recipe_nil (key : String) (default : Json) : getD (recipe []) key default = default := rfl

theorem getD_recipe_cons (k key : String) (v default : Json) (rest : List (String × Json)) :
    getD (recipe ((k, v) :: rest)) key default =
      if key = k then v else getD (recipe rest) key default := by
  rw [getD, get?, recipe, List.map_cons, List.lookup_cons]
  by_cases h : key = k
  · rw [if_pos h, h, beq_self_eq_true]
    rfl
  · rw [if_neg h, beq_false_of_ne fun hk ↦ h (String.toList_injective hk)]
    rfl

theorem getD_recipe_of_notMem {key : String} {entries : List (String × Json)} {default : Json}
    (h : ∀ e ∈ entries, e.1 ≠ key) : getD (recipe entries) key default = default := by
  induction entries with
  | nil => rfl
  | cons e rest ih =>
    rw [getD_recipe_cons, if_neg (h e List.mem_cons_self).symm]
    exact ih fun e' he' ↦ h e' (List.mem_cons_of_mem _ he')

theorem getD_setItem (d : Dict) (k key : String) (v default : Json) :
    getD (d.setItem k.toList v) key default = if key = k then v else d.getD key default := by
  rw [getD, get?_setItem]
  by_cases h : key = k
  · rw [if_pos h, if_pos (congrArg String.toList h), Option.getD_some]
  · rw [if_neg h, if_neg fun hk ↦ h (String.toList_injective hk), getD]

/-- `d[key]` -/
def item (d : Dict) (key : String) : Except Sentrik.Raised Json :=
  match d.get? key.toList with
  | some value => .ok value
  | none => .error .KeyError

end Dict

namespace Json

open Sentrik

/-- A text. -/
def text (s : String) : Json := .str s.toList

/-- The value is this text. -/
def is (value : Json) (t : Text) : Bool :=
  match value with
  | .str s => s = t
  | _ => false

/-- `value or other` -/
def or (value other : Json) : Json := if value.truthy then value else other

/-- `value in t`, for a text `t` -/
def isIn (value : Json) (t : Text) : Except Raised Bool :=
  match value with
  | .str s => .ok (Text.hasInfix s t)
  | _ => .error .TypeError

/-- The text on which a method of texts is called. -/
def asText (value : Json) : Except Raised Text :=
  match value with
  | .str s => .ok s
  | _ => .error .AttributeError

/-- The dictionary on which `get` is called. -/
def asDict (value : Json) : Except Raised Dict :=
  match value with
  | .obj fields => .ok fields
  | _ => .error .AttributeError

/-- The items a loop over the value goes through. -/
def iter (value : Json) : Except Raised (List Json) :=
  match value with
  | .arr items => .ok items
  | .str s => .ok (s.map fun c ↦ .str [c])
  | .obj fields => .ok (fields.map fun e ↦ .str e.1)
  | _ => .error .TypeError

/-- The items of a value as the texts that are joined. -/
def texts (value : Json) : Except Raised (List Text) := do
  (← value.iter).mapM fun item ↦
    match item with
    | .str s => .ok s
    | _ => .error .TypeError

end Json

namespace Sentrik

open Interaction (request)

section

variable [u : UnicodeTables]

/-- Send the overrides as parameters, or as form fields when the method is not `GET`. -/
def sendOverrides (method url : Json) (overrides : Except Raised Overrides) :
    Program GuardedResponse := do
  let overrides ← MonadExcept.ofExcept overrides
  match method.or (.text "GET") with
  | .str name =>
    if u.upper name = "GET".toList then request { url, params := some overrides }
    else request { method := name, url, data := some overrides }
  | _ => throw .AttributeError

/-- Such a send raises, or is one call that carries the overrides. -/
theorem always_sendOverrides {method url : Json} {overrides : Except Raised Overrides}
    {post : List Exchange → Answer → Prop} (hraised : ∀ exc, post [] (.error exc))
    (hsent : ∀ query o answer, overrides = .ok o → query.Carries o → post [(query, answer)] answer) :
    Interaction.Always (sendOverrides method url overrides).run post := by
  rw [sendOverrides, Interaction.always_run_bind, Interaction.always_run_ofExcept]
  cases overrides with
  | error exc => exact hraised exc
  | ok o =>
    dsimp only
    split
    next name =>
      split
      · exact fun answer ↦ hsent _ o answer rfl (.inl rfl)
      · exact fun answer ↦ hsent _ o answer rfl (.inr rfl)
    next => exact hraised .AttributeError

theorem returns_sendOverrides {method url : Json} {overrides : Except Raised Overrides}
    {post : List Exchange → GuardedResponse → Prop}
    (h : ∀ query o resp, overrides = .ok o → query.Carries o → post [(query, .ok resp)] resp) :
    Interaction.Returns (sendOverrides method url overrides) post := by
  refine always_sendOverrides (fun _ _ hexc ↦ nomatch hexc) fun query o answer ho hq resp hresp ↦ ?_
  rw [hresp]
  exact h query o resp ho hq

end

end Sentrik
