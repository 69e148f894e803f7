import Mathlib.Data.List.Basic

/-!
# Chains of a packet filter

A chain is built by commands, each of which sets the policy or appends a rule. A packet gets the target of the
first rule that matches it, and the policy of the chain where none does.

What matches is a parameter: the two results about a whole script, what its chain denies by default
(`policy_run`) and what it accepts (`exists_of_accepted`), only use which commands are in it.
-/

namespace PacketFilter

inductive Target
  | ACCEPT | DROP | REJECT
  deriving DecidableEq, Repr

/-- A rule: what it matches, and what becomes of that. -/
structure Rule (μ : Type*) where
  guard : μ
  target : Target
  deriving DecidableEq, Repr

inductive Command (μ : Type*)
  | policy (target : Target)
  | append (rule : Rule μ)
  deriving DecidableEq, Repr

structure Chain (μ : Type*) where
  policy : Target := .ACCEPT
  rules : List (Rule μ) := []

variable {μ π : Type*}

namespace Chain

def step (chain : Chain μ) : Command μ → Chain μ
  | .policy target => { chain with policy := target }
  | .append rule => { chain with rules := chain.rules ++ [rule] }

/-- The chain after a script, from the empty one. -/
def run (commands : List (Command μ)) : Chain μ := commands.foldl step {}

/-- What becomes of a packet: the first rule that matches decides. -/
def verdict (sat : μ → π → Bool) (chain : Chain μ) (p : π) : Target :=
  ((chain.rules.find? fun r ↦ sat r.guard p).map Rule.target).getD chain.policy

/-- The rules are those of the commands. -/
theorem mem_rules_foldl {commands : List (Command μ)} {chain : Chain μ} {rule : Rule μ} :
    rule ∈ (commands.foldl step chain).rules ↔ rule ∈ chain.rules ∨ Command.append rule ∈ commands := by
  induction commands generalizing chain with
  | nil => exact (or_iff_left List.not_mem_nil).symm
  | cons command rest ih =>
    rw [List.foldl_cons, ih]
    cases command with
    | policy target =>
      show rule ∈ chain.rules ∨ _ ↔ _
      have hne : Command.append rule ≠ Command.policy target := by rintro ⟨⟩
      rw [List.mem_cons, or_iff_right hne]
    | append first =>
      show rule ∈ chain.rules ++ [first] ∨ _ ↔ _
      rw [List.mem_append, List.mem_singleton, List.mem_cons, or_assoc, Command.append.injEq]

/-- A policy is set, and no other one. -/
theorem policy_foldl {commands : List (Command μ)} {chain : Chain μ} {target : Target}
    (h : chain.policy = target ∨ Command.policy target ∈ commands)
    (hall : ∀ t, Command.policy t ∈ commands → t = target) :
    (commands.foldl step chain).policy = target := by
  induction commands generalizing chain with
  | nil => exact h.resolve_right List.not_mem_nil
  | cons command rest ih =>
    rw [List.foldl_cons]
    have hrest := fun t ht ↦ hall t (List.mem_cons_of_mem command ht)
    cases command with
    | policy t =>
      refine ih (Or.inl ?_) hrest
      show t = target
      exact hall t List.mem_cons_self
    | append rule =>
      refine ih ?_ hrest
      rcases h with h | h
      · exact Or.inl h
      · rcases List.mem_cons.1 h with heq | h
        · cases heq
        · exact Or.inr h

/-- A script that sets one policy leaves the chain with it. -/
theorem policy_run {commands : List (Command μ)} {target : Target}
    (h : Command.policy target ∈ commands) (hall : ∀ t, Command.policy t ∈ commands → t = target) :
    (run commands).policy = target :=
  policy_foldl (Or.inr h) hall

/-- A packet that is accepted, though not by default, is matched by a rule of the script that accepts. -/
theorem exists_of_accepted {sat : μ → π → Bool} {commands : List (Command μ)} {p : π}
    (hpolicy : (run commands).policy ≠ .ACCEPT) (h : (run commands).verdict sat p = .ACCEPT) :
    ∃ rule, Command.append rule ∈ commands ∧ rule.target = .ACCEPT ∧ sat rule.guard p = true := by
  rw [verdict] at h
  cases hfind : (run commands).rules.find? (fun r ↦ sat r.guard p) with
  | none =>
    rw [hfind] at h
    exact absurd h hpolicy
  | some rule =>
    rw [hfind] at h
    have hmem := mem_rules_foldl.1 (List.mem_of_find?_eq_some hfind)
    have hsat := List.find?_some (p := fun r : Rule μ ↦ sat r.guard p) hfind
    exact ⟨rule, hmem.resolve_left List.not_mem_nil, h, hsat⟩

end Chain

end PacketFilter
