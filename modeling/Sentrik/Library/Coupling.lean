import Sentrik.Library.Interaction

/-!
# Two programs against one world

`Coupled world m m' rel`: where both programs return against the same deterministic world, the results are
related. The rule that matters is `coupled_bind`: a call that both make is answered once, so what follows it
is compared after the same answer. Calls that only one side makes are taken off that side.
-/

namespace Interaction

universe u v w

variable {q : Type u} {r : Type v} {ε α β γ δ : Type w} {world : q → r}
  {m : ExceptT ε (Interaction q r) α} {m' : ExceptT ε (Interaction q r) β} {rel : α → β → Prop}

/-- Where both return, the results are related. -/
def Coupled (world : q → r) (m : ExceptT ε (Interaction q r) α) (m' : ExceptT ε (Interaction q r) β)
    (rel : α → β → Prop) : Prop :=
  Gives world m fun a ↦ Gives world m' fun b ↦ rel a b

theorem coupled_of_left (h : Gives world m fun a ↦ ∀ b, rel a b) : Coupled world m m' rel :=
  h.mono fun _ ha b _ ↦ ha b

@[simp] theorem coupled_pure {a : α} {b : β} :
    Coupled world (pure a : ExceptT ε (Interaction q r) α) (pure b) rel ↔ rel a b := by
  rw [Coupled, gives_pure, gives_pure]

/-- A prefix of the left side only. -/
theorem coupled_bind_left {p : ExceptT ε (Interaction q r) γ} {k : γ → ExceptT ε (Interaction q r) α} :
    Coupled world (p >>= k) m' rel ↔ Gives world p fun c ↦ Coupled world (k c) m' rel := gives_bind

/-- **A common prefix.** -/
theorem coupled_bind {p : ExceptT ε (Interaction q r) γ} {k : γ → ExceptT ε (Interaction q r) α}
    {k' : γ → ExceptT ε (Interaction q r) β} :
    Coupled world (p >>= k) (p >>= k') rel ↔ Gives world p fun c ↦ Coupled world (k c) (k' c) rel := by
  rw [Coupled, gives_bind]
  -- the right side makes the call again, and is answered what the left side was
  refine forall_congr' fun c ↦ imp_congr_right fun hc ↦ forall_congr' fun a ↦ imp_congr_right fun _ ↦ ?_
  show Gives world (p >>= k') (rel a) ↔ Gives world (k' c) (rel a)
  rw [gives_bind]
  constructor
  · exact fun h ↦ h c hc
  · intro h d hd
    obtain rfl : c = d := Except.ok.inj (hc.symm.trans hd)
    exact h

/-- Two programs that look at the exceptions of what they run. -/
theorem coupled_attempt {p : ExceptT ε (Interaction q r) γ} {p' : ExceptT ε (Interaction q r) δ}
    {k : Except ε γ → ExceptT ε (Interaction q r) α} {k' : Except ε δ → ExceptT ε (Interaction q r) β} :
    Coupled world (attempt p >>= k) (attempt p' >>= k') rel ↔
      Coupled world (k (eval world p.run)) (k' (eval world p'.run)) rel := by
  rw [coupled_bind_left, gives_attempt, Coupled, Coupled]
  refine forall_congr' fun a ↦ imp_congr_right fun _ ↦ ?_
  show Gives world (attempt p' >>= k') (rel a) ↔ Gives world (k' (eval world p'.run)) (rel a)
  rw [gives_bind, gives_attempt]

end Interaction
