import Mathlib.Data.Char
import Mathlib.Data.List.Infix
import Sentrik.Library.Text

/-!
# Shell-style patterns

File-name patterns as the standard `fnmatch` reads them: `*` matches any text, `?` any one
character, `[seq]` and `[!seq]` a character in (not in) a set of characters and ranges, and every
other character itself. A `[` with no closing bracket is a literal bracket. Matching is of the
whole name.

A pattern is compiled to a list of tokens (`compile`) and matched by recursion on the tokens
(`matchTokens`). Compilation carries a fuel so that it is structural; `compileAux_eq_compile` says
the fuel is irrelevant once it covers the pattern.

The two rules a user of the module needs: a star before a pattern without metacharacters matches its
extensions to the left (`fnmatch_star_literal`), and every text has a pattern matching it alone
(`fnmatch_escape`).
-/

namespace Glob

/-- One token of a compiled pattern. -/
inductive Token
  /-- `*` -/
  | star
  /-- `?` -/
  | any
  /-- A character that stands for itself. -/
  | lit (c : Char)
  /-- `[seq]`, or `[!seq]` when `neg`; `items` are inclusive ranges. -/
  | set (neg : Bool) (items : List (Char × Char))
  deriving DecidableEq, Repr

/-- The characters a single-character token accepts. -/
def Token.accepts : Token → Char → Bool
  | .star, _ => false
  | .any, _ => true
  | .lit d, c => c == d
  | .set neg items, c => (items.any fun r ↦ r.1 ≤ c && c ≤ r.2) != neg

/-- The ranges of a set: `a-b` is a range when both ends are there, a reversed range is empty. -/
def classItems : Text → List (Char × Char)
  | a :: '-' :: b :: rest => (a, b) :: classItems rest
  | a :: rest => (a, a) :: classItems rest
  | [] => []

/-- The set that opens here (after its `[`), with the text after its `]`. A bracket right after the
opening, or after the `!`, belongs to the set. -/
def classBody (t : Text) : Option (Token × Text) :=
  let (neg, t) := match t with
    | '!' :: r => (true, r)
    | _ => (false, t)
  let (lead, t) := match t with
    | ']' :: r => ([']'], r)
    | _ => ([], t)
  match Text.partition ']' t with
  | (_, none) => none
  | (body, some rest) => some (.set neg (classItems (lead ++ body)), rest)

/-- Compilation with fuel. -/
def compileAux : ℕ → Text → List Token
  | 0, _ => []
  | _ + 1, [] => []
  | n + 1, c :: t =>
    if c = '*' then .star :: compileAux n t
    else if c = '?' then .any :: compileAux n t
    else if c = '[' then
      match classBody t with
      | none => .lit '[' :: compileAux n t
      | some (tok, rest) => tok :: compileAux n rest
    else .lit c :: compileAux n t

/-- The tokens of a pattern. -/
def compile (pat : Text) : List Token := compileAux pat.length pat

/-- Whole-text match of a compiled pattern. -/
def matchTokens : List Token → Text → Bool
  | [], t => t.isEmpty
  | .star :: toks, t => t.tails.any (matchTokens toks)
  | _ :: _, [] => false
  | tok :: toks, c :: t => tok.accepts c && matchTokens toks t

/-- `name` matches the pattern `pat`. -/
def fnmatch (name pat : Text) : Bool := matchTokens (compile pat) name

/-! ### Fuel is irrelevant -/

theorem length_of_partition {c : Char} {t body rest : Text}
    (h : Text.partition c t = (body, some rest)) : rest.length < t.length := by
  rw [Text.partition, Prod.mk.injEq] at h
  have hlen := (List.dropWhile_suffix (l := t) (· != c)).length_le
  cases hd : t.dropWhile (· != c) with
  | nil => simp [hd] at h
  | cons d ds =>
    rw [hd] at h hlen
    rw [← Option.some.inj h.2]
    exact hlen

theorem length_of_classBody {t rest : Text} {tok : Token} (h : classBody t = some (tok, rest)) :
    rest.length < t.length := by
  have key : ∀ {neg : Bool} {lead u : Text}, u.length ≤ t.length →
      (match Text.partition ']' u with
        | (_, none) => none
        | (body, some rest) => some (Token.set neg (classItems (lead ++ body)), rest)) =
          some (tok, rest) → rest.length < t.length := by
    intro neg lead u hu h
    rcases hp : Text.partition ']' u with ⟨body, - | rest'⟩
    · simp [hp] at h
    · rw [hp] at h
      obtain ⟨-, rfl⟩ := Prod.mk.inj (Option.some.inj h)
      exact (length_of_partition hp).trans_le hu
  unfold classBody at h
  split at h
  next _ neg u hnu =>
    have hu : u.length ≤ t.length := by
      split at hnu <;> obtain ⟨-, rfl⟩ := Prod.mk.inj hnu
      · exact Nat.le_succ _
      · exact le_rfl
    split at h
    next _ lead v hlv =>
      have hv : v.length ≤ u.length := by
        split at hlv <;> obtain ⟨-, rfl⟩ := Prod.mk.inj hlv
        · exact Nat.le_succ _
        · exact le_rfl
      exact key (hv.trans hu) h

theorem compileAux_eq_of_le {t : Text} {n m : ℕ} (hn : t.length ≤ n) (hm : t.length ≤ m) :
    compileAux n t = compileAux m t := by
  induction n generalizing m t with
  | zero =>
    obtain rfl := List.eq_nil_of_length_eq_zero (Nat.le_zero.1 hn)
    cases m <;> rfl
  | succ n ih =>
    cases t with
    | nil => cases m <;> rfl
    | cons c t =>
      obtain ⟨m, rfl⟩ : ∃ k, m = k + 1 := Nat.exists_eq_succ_of_ne_zero (by
        rw [List.length_cons] at hm
        omega)
      rw [List.length_cons, Nat.add_le_add_iff_right] at hn hm
      simp only [compileAux, ih hn hm]
      cases hb : classBody t with
      | none => rfl
      | some r =>
        have hr := @length_of_classBody t r.2 r.1 hb
        simp only [ih (t := r.2) (m := m) (by omega) (by omega)]

theorem compileAux_eq_compile {t : Text} {n : ℕ} (hn : t.length ≤ n) : compileAux n t = compile t :=
  compileAux_eq_of_le hn le_rfl

/-! ### Compiling and matching, one token at a time -/

@[simp] theorem compile_nil : compile [] = [] := rfl

theorem compile_star (t : Text) : compile ('*' :: t) = .star :: compile t := rfl

/-- A character that is not special stands for itself. -/
def IsLiteralChar (c : Char) : Prop := c ≠ '*' ∧ c ≠ '?' ∧ c ≠ '['

instance (c : Char) : Decidable (IsLiteralChar c) := inferInstanceAs (Decidable (_ ∧ _ ∧ _))

/-- A pattern without metacharacters. -/
def IsLiteral (t : Text) : Prop := ∀ c ∈ t, IsLiteralChar c

instance (t : Text) : Decidable (IsLiteral t) := inferInstanceAs (Decidable (∀ c ∈ t, _))

theorem compile_lit {c : Char} (hc : IsLiteralChar c) (t : Text) :
    compile (c :: t) = .lit c :: compile t := by
  obtain ⟨h₁, h₂, h₃⟩ := hc
  simp only [compile, List.length_cons, compileAux, h₁, h₂, h₃, if_false]

@[simp] theorem matchTokens_nil (t : Text) : matchTokens [] t = true ↔ t = [] := by
  simp [matchTokens]

theorem matchTokens_star {toks : List Token} {t : Text} :
    matchTokens (.star :: toks) t = true ↔ ∃ u, u <:+ t ∧ matchTokens toks u = true := by
  simp [matchTokens, List.mem_tails]

theorem matchTokens_lit {c : Char} {toks : List Token} {t : Text} :
    matchTokens (.lit c :: toks) t = true ↔ ∃ u, t = c :: u ∧ matchTokens toks u = true := by
  cases t with
  | nil => simp [matchTokens]
  | cons d t =>
    simp only [matchTokens, Token.accepts, Bool.and_eq_true, beq_iff_eq, List.cons.injEq]
    constructor
    · rintro ⟨rfl, h⟩
      exact ⟨t, ⟨rfl, rfl⟩, h⟩
    · rintro ⟨u, ⟨rfl, rfl⟩, h⟩
      exact ⟨rfl, h⟩

/-! ### The rules -/

theorem matchTokens_compile_literal {p : Text} (hp : IsLiteral p) {t : Text} :
    matchTokens (compile p) t = true ↔ t = p := by
  induction p generalizing t with
  | nil => rw [compile_nil, matchTokens_nil]
  | cons c p ih =>
    obtain ⟨hc, hp⟩ := List.forall_mem_cons.1 hp
    rw [compile_lit hc, matchTokens_lit]
    constructor
    · rintro ⟨u, rfl, hu⟩
      rw [(ih hp).1 hu]
    · rintro rfl
      exact ⟨p, rfl, (ih hp).2 rfl⟩

/-- A star before a pattern without metacharacters matches exactly the texts that end with it. -/
theorem fnmatch_star_literal {p : Text} (hp : IsLiteral p) {t : Text} :
    fnmatch t ('*' :: p) = true ↔ p <:+ t := by
  rw [fnmatch, compile_star, matchTokens_star]
  constructor
  · rintro ⟨u, hu, hm⟩
    exact (matchTokens_compile_literal hp).1 hm ▸ hu
  · intro h
    exact ⟨p, h, (matchTokens_compile_literal hp).2 rfl⟩

/-- The pattern that matches a text alone: each metacharacter becomes a one-element set. -/
def escape (p : Text) : Text :=
  p.flatMap fun c ↦ if IsLiteralChar c then [c] else ['[', c, ']']

theorem length_le_length_escape (p : Text) : p.length ≤ (escape p).length := by
  induction p with
  | nil => exact le_rfl
  | cons c p ih =>
    rw [escape, List.flatMap_cons, List.length_append, List.length_cons]
    rw [escape] at ih
    split
    · rw [List.length_singleton]; omega
    · simp only [List.length_cons, List.length_nil]; omega

/-- Escaping only lengthens: where it does not, it changes nothing. -/
theorem escape_eq_self {p : Text} (h : (escape p).length ≤ p.length) : escape p = p := by
  induction p with
  | nil => rfl
  | cons c p ih =>
    have hle := length_le_length_escape p
    rw [escape, List.flatMap_cons, List.length_append] at h
    rw [escape] at hle ih
    split at h
    next hc =>
      rw [List.length_singleton, List.length_cons] at h
      rw [escape, List.flatMap_cons, if_pos hc, ih (by omega), List.singleton_append]
    next =>
      simp only [List.length_cons, List.length_nil] at h
      omega

/-- A text no longer than `p` that starts with the pattern of `p` is `p`. -/
theorem eq_of_escape_isPrefixOf {p t : Text} (h : escape p <+: t) (ht : t.length ≤ p.length) :
    t = p := by
  have hlen : (escape p).length ≤ p.length := h.length_le.trans ht
  have heq : escape p = t :=
    h.eq_of_length (le_antisymm h.length_le (ht.trans (length_le_length_escape p)))
  rw [← heq, escape_eq_self hlen]

theorem compile_bracket {c : Char} (hc : ¬IsLiteralChar c) (t : Text) :
    compile ('[' :: c :: ']' :: t) = .set false [(c, c)] :: compile t := by
  have hmeta : c = '*' ∨ c = '?' ∨ c = '[' := by
    rw [IsLiteralChar] at hc
    tauto
  have hstep : compile ('[' :: c :: ']' :: t) =
      .set false [(c, c)] :: compileAux (t.length + 2) t := by
    rcases hmeta with rfl | rfl | rfl <;> rfl
  rw [hstep, compileAux_eq_compile (by omega)]

theorem matchTokens_singleton {c : Char} {toks : List Token} {t : Text} :
    matchTokens (.set false [(c, c)] :: toks) t = true ↔
      ∃ u, t = c :: u ∧ matchTokens toks u = true := by
  cases t with
  | nil => simp [matchTokens]
  | cons d t =>
    have hd : (Token.set false [(c, c)]).accepts d = true ↔ d = c := by
      simp only [Token.accepts, List.any_cons, List.any_nil, Bool.or_false, bne_iff_ne, ne_eq,
        Bool.not_eq_false, Bool.and_eq_true, decide_eq_true_eq]
      exact ⟨fun h ↦ le_antisymm h.2 h.1, fun h ↦ h ▸ ⟨le_rfl, le_rfl⟩⟩
    simp only [matchTokens, Bool.and_eq_true, hd, List.cons.injEq]
    constructor
    · rintro ⟨rfl, h⟩
      exact ⟨t, ⟨rfl, rfl⟩, h⟩
    · rintro ⟨u, ⟨rfl, rfl⟩, h⟩
      exact ⟨rfl, h⟩

/-- **Every text has a pattern of its own.** -/
theorem fnmatch_escape {p t : Text} : fnmatch t (escape p) = true ↔ t = p := by
  rw [fnmatch]
  induction p generalizing t with
  | nil => rw [escape, List.flatMap_nil, compile_nil, matchTokens_nil]
  | cons c p ih =>
    have hhead : matchTokens (compile (escape (c :: p))) t = true ↔
        ∃ u, t = c :: u ∧ matchTokens (compile (escape p)) u = true := by
      rw [escape, List.flatMap_cons]
      split
      next hc => rw [List.singleton_append, compile_lit hc, matchTokens_lit]; rfl
      next hc =>
        rw [List.cons_append, List.cons_append, List.singleton_append, compile_bracket hc,
          matchTokens_singleton]
        rfl
    rw [hhead]
    constructor
    · rintro ⟨u, rfl, hu⟩
      rw [ih.1 hu]
    · rintro rfl
      exact ⟨p, rfl, ih.2 rfl⟩

end Glob
