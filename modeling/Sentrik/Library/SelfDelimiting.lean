import Mathlib.Data.List.Basic

/-!
# Self-delimiting renderings

A rendering of values as lists of symbols is self-delimiting when, whatever follows, one can tell where
a value ends and which value it was. Renderings put together from self-delimiting ones by concatenation,
by closing a list with a symbol nothing in it starts with, or by separating its items, are
self-delimiting again; every self-delimiting rendering is injective.
-/

/-- No rendering of a value, continued, is one of another value, continued. -/
def SelfDelimiting {α β : Type*} (f : α → List β) : Prop :=
  ∀ ⦃a b : α⦄ ⦃x y : List β⦄, f a ++ x = f b ++ y → a = b ∧ x = y

namespace SelfDelimiting

variable {α β γ : Type*} {f : α → List β} {g : γ → List β}

theorem injective (hf : SelfDelimiting f) : Function.Injective f := by
  intro a b h
  exact (hf (congrArg (· ++ []) h)).1

/-- A rendering that can be read back from the front is self-delimiting. -/
theorem of_read (read : List β → Option (α × List β)) (h : ∀ a x, read (f a ++ x) = some (a, x)) :
    SelfDelimiting f := by
  intro a b x y hxy
  have hread : some (a, x) = some (b, y) := by rw [← h a x, ← h b y, hxy]
  exact Prod.mk.inj (Option.some.inj hread)

/-- A fixed text in front changes nothing. -/
theorem prepend (hf : SelfDelimiting f) (l : List β) : SelfDelimiting fun a ↦ l ++ f a := by
  intro a b x y h
  have h' : l ++ (f a ++ x) = l ++ (f b ++ y) := by
    rw [← List.append_assoc, ← List.append_assoc]
    exact h
  exact hf (List.append_cancel_left h')

/-- Two renderings, one after the other. -/
theorem append (hf : SelfDelimiting f) (hg : SelfDelimiting g) :
    SelfDelimiting fun p : α × γ ↦ f p.1 ++ g p.2 := by
  intro p q x y h
  have h' : f p.1 ++ (g p.2 ++ x) = f q.1 ++ (g q.2 ++ y) := by
    rw [← List.append_assoc, ← List.append_assoc]
    exact h
  obtain ⟨h₁, hrest⟩ := hf h'
  obtain ⟨h₂, hxy⟩ := hg hrest
  exact ⟨Prod.ext h₁ h₂, hxy⟩

/-- Items one after the other, closed by a symbol with which no item starts. -/
theorem terminated (hf : SelfDelimiting f) (stop : β) (hstop : ∀ a x, f a ≠ stop :: x)
    (hne : ∀ a, f a ≠ []) : SelfDelimiting fun l : List α ↦ l.flatMap f ++ [stop] := by
  -- an item does not look like the end of the list
  have hclash : ∀ (a : α) (l : List β) (y : List β), f a ++ l ≠ stop :: y := by
    intro a l y h
    obtain ⟨c, r, hc⟩ := List.exists_cons_of_ne_nil (hne a)
    rw [hc, List.cons_append] at h
    exact hstop a r (by rw [hc, (List.cons.inj h).1])
  intro l m x y h
  induction l generalizing m with
  | nil =>
    cases m with
    | nil => exact ⟨rfl, (List.cons.inj h).2⟩
    | cons b m =>
      simp only [List.flatMap_nil, List.nil_append, List.cons_append, List.flatMap_cons,
        List.append_assoc] at h
      exact absurd h.symm (hclash b _ _)
  | cons a l ih =>
    cases m with
    | nil =>
      simp only [List.flatMap_nil, List.nil_append, List.cons_append, List.flatMap_cons,
        List.append_assoc] at h
      exact absurd h (hclash a _ _)
    | cons b m =>
      simp only [List.flatMap_cons, List.append_assoc] at h
      obtain ⟨rfl, hrest⟩ := hf h
      obtain ⟨rfl, hxy⟩ := ih (by dsimp only; rw [List.append_assoc, List.append_assoc]; exact hrest)
      exact ⟨rfl, hxy⟩

/-- Parts with a separator between them, and a closing symbol at the end. -/
def joined (sep close : β) : List (List β) → List β
  | [] => [close]
  | [part] => part ++ [close]
  | part :: next :: parts => part ++ sep :: joined sep close (next :: parts)

/-- Separated items, closed by another symbol, with which no item starts. -/
theorem separated (hf : SelfDelimiting f) {sep close : β} (hsep : sep ≠ close)
    (hclose : ∀ a x, f a ≠ close :: x) (hne : ∀ a, f a ≠ []) :
    SelfDelimiting fun l : List α ↦ joined sep close (l.map f) := by
  have hclash : ∀ (a : α) (l : List β) (y : List β), f a ++ l ≠ close :: y := by
    intro a l y h
    obtain ⟨c, r, hc⟩ := List.exists_cons_of_ne_nil (hne a)
    rw [hc, List.cons_append] at h
    exact hclose a r (by rw [hc, (List.cons.inj h).1])
  -- after the first item the list either closes or goes on
  have hlast : ∀ (a : α) (x : List β), joined sep close ([a].map f) ++ x = f a ++ close :: x := by
    intro a x
    simp [joined]
  have hitem : ∀ (a b : α) (l : List α) (x : List β), joined sep close ((a :: b :: l).map f) ++ x =
      f a ++ sep :: (joined sep close ((b :: l).map f) ++ x) := by
    intro a b l x
    simp [joined]
  have hfirst : ∀ (a : α) (l : List α) (x : List β), ∃ r, joined sep close ((a :: l).map f) ++ x =
      f a ++ r := by
    intro a l x
    cases l with
    | nil => exact ⟨_, hlast a x⟩
    | cons b l => exact ⟨_, hitem a b l x⟩
  intro l m x y h
  induction l generalizing m with
  | nil =>
    cases m with
    | nil => exact ⟨rfl, (List.cons.inj h).2⟩
    | cons b m =>
      obtain ⟨r, hr⟩ := hfirst b m y
      exact absurd (hr.symm.trans h.symm) (hclash b _ _)
  | cons a l ih =>
    cases m with
    | nil =>
      obtain ⟨r, hr⟩ := hfirst a l x
      exact absurd (hr.symm.trans h) (hclash a _ _)
    | cons b m =>
      cases l with
      | nil =>
        cases m with
        | nil =>
          obtain ⟨rfl, hrest⟩ := hf ((hlast a x).symm.trans (h.trans (hlast b y)))
          exact ⟨rfl, (List.cons.inj hrest).2⟩
        | cons c m =>
          obtain ⟨-, hrest⟩ := hf ((hlast a x).symm.trans (h.trans (hitem b c m y)))
          exact absurd (List.cons.inj hrest).1.symm hsep
      | cons c l =>
        cases m with
        | nil =>
          obtain ⟨-, hrest⟩ := hf ((hitem a c l x).symm.trans (h.trans (hlast b y)))
          exact absurd (List.cons.inj hrest).1 hsep
        | cons d m =>
          obtain ⟨rfl, hrest⟩ := hf ((hitem a c l x).symm.trans (h.trans (hitem b d m y)))
          obtain ⟨heq, hxy⟩ := ih (List.cons.inj hrest).2
          exact ⟨by rw [heq], hxy⟩

end SelfDelimiting
