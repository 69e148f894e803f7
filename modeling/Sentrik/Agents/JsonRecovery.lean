import Sentrik.Agents.Brain
import Sentrik.Library.JsonGrammar

/-!
# Documents in the prose of a model

A model answers with a document among other text. The brain takes the part from the first opening brace to the
last closing one; the re-ranker **counts braces** from the first opening one, decodes the part up to where the
count is back at zero, and starts over at the next opening brace where that part cannot be decoded.

Without an opening brace before the document and a closing one after it the first way finds the document
(`jsonPart_prose`). The count sees the braces in the texts of the document as well: it finds the document exactly
when it is first back at zero at the very end (`BracesClose`). Where it is not, no later start can make up for
it: a proper part of a printed document is no spelling of it (`JsonText.bulk_print_le`).
-/

namespace Sentrik

/-- The part of a text up to where the count of open braces is first back at zero, from this count on. -/
def closedPart (depth : ℤ) : Text → Option Text
  | [] => none
  | c :: rest =>
    if c = '\x7b' then (closedPart (depth + 1) rest).map (c :: ·)
    else if c = '\x7d' then
      if depth - 1 = 0 then some [c] else (closedPart (depth - 1) rest).map (c :: ·)
    else (closedPart depth rest).map (c :: ·)

section

variable [lib : StandardLibrary]

/-- The first document that is found by counting braces from one of the opening ones. -/
def _first_json_object : Text → Option Json
  | [] => none
  | c :: rest =>
    if c = '\x7b' then
      match (closedPart 0 (c :: rest)).bind fun part ↦ (lib.loads part).toOption with
      | some value => some value
      | none => _first_json_object rest
    else _first_json_object rest

end

/-! ### Counting braces -/

/-- Braces counted from the left, those in texts as well, are first in balance at the end. -/
def BracesClose (t : Text) : Prop :=
  t.count '\x7b' = t.count '\x7d' ∧
    ∀ k, 0 < k → k < t.length → (t.take k).count '\x7d' < (t.take k).count '\x7b'

instance (t : Text) : Decidable (BracesClose t) :=
  decidable_of_iff (t.count '\x7b' = t.count '\x7d' ∧
      ∀ k < t.length, 0 < k → (t.take k).count '\x7d' < (t.take k).count '\x7b')
    ⟨fun h ↦ ⟨h.1, fun k hpos hk ↦ h.2 k hk hpos⟩, fun h ↦ ⟨h.1, fun k hk hpos ↦ h.2 k hpos hk⟩⟩

/-- What is found is the beginning of the text, ends with a closing brace, and is found in itself. -/
theorem closedPart_eq_some {t part : Text} {depth : ℤ} (h : closedPart depth t = some part) :
    part <+: t ∧ part.getLast? = some '\x7d' ∧ closedPart depth part = some part := by
  induction t generalizing depth part with
  | nil => cases h
  | cons c rest ih =>
    rw [closedPart] at h
    split at h
    next hopen =>
      obtain ⟨found, hfound, rfl⟩ := Option.map_eq_some_iff.1 h
      obtain ⟨hpre, hlast, hself⟩ := ih hfound
      refine ⟨(List.prefix_cons_inj c).2 hpre, ?_, ?_⟩
      · rw [List.getLast?_cons, hlast]
        rfl
      · rw [closedPart, if_pos hopen, hself]
        rfl
    next hopen =>
    split at h
    next hclose =>
      split at h
      next hzero =>
        cases h
        refine ⟨⟨rest, rfl⟩, by rw [hclose]; rfl, ?_⟩
        rw [closedPart, if_neg hopen, if_pos hclose, if_pos hzero]
      next hzero =>
        obtain ⟨found, hfound, rfl⟩ := Option.map_eq_some_iff.1 h
        obtain ⟨hpre, hlast, hself⟩ := ih hfound
        refine ⟨(List.prefix_cons_inj c).2 hpre, ?_, ?_⟩
        · rw [List.getLast?_cons, hlast]
          rfl
        · rw [closedPart, if_neg hopen, if_pos hclose, if_neg hzero, hself]
          rfl
    next hclose =>
      obtain ⟨found, hfound, rfl⟩ := Option.map_eq_some_iff.1 h
      obtain ⟨hpre, hlast, hself⟩ := ih hfound
      refine ⟨(List.prefix_cons_inj c).2 hpre, ?_, ?_⟩
      · rw [List.getLast?_cons, hlast]
        rfl
      · rw [closedPart, if_neg hopen, if_neg hclose, hself]
        rfl

/-- What is found does not depend on what follows it. -/
theorem closedPart_append {t part : Text} {depth : ℤ} (h : closedPart depth t = some part) (x : Text) :
    closedPart depth (t ++ x) = some part := by
  induction t generalizing depth part with
  | nil => cases h
  | cons c rest ih =>
    rw [closedPart] at h
    rw [List.cons_append, closedPart]
    split at h
    next hopen =>
      obtain ⟨found, hfound, rfl⟩ := Option.map_eq_some_iff.1 h
      rw [if_pos hopen, ih hfound]
      rfl
    next hopen =>
    rw [if_neg hopen]
    split at h
    next hclose =>
      rw [if_pos hclose]
      split at h
      next hzero =>
        rw [if_pos hzero]
        exact h
      next hzero =>
        obtain ⟨found, hfound, rfl⟩ := Option.map_eq_some_iff.1 h
        rw [if_neg hzero, ih hfound]
        rfl
    next hclose =>
      obtain ⟨found, hfound, rfl⟩ := Option.map_eq_some_iff.1 h
      rw [if_neg hclose, ih hfound]
      rfl

/-- A property of all proper beginnings of a text, at its first character and after it. -/
theorem forall_take_cons {P : Text → Prop} (c : Char) (rest : Text) :
    (∀ k < (c :: rest).length, P ((c :: rest).take k)) ↔ P [] ∧ ∀ k < rest.length, P (c :: rest.take k) := by
  constructor
  · intro h
    refine ⟨h 0 (by rw [List.length_cons]; omega), fun k hk ↦ ?_⟩
    have hnext := h (k + 1) (by rw [List.length_cons]; omega)
    rw [List.take_succ_cons] at hnext
    exact hnext
  · rintro ⟨hnil, hcons⟩ k hk
    cases k with
    | zero => exact hnil
    | succ k =>
      rw [List.take_succ_cons]
      rw [List.length_cons] at hk
      exact hcons k (by omega)

theorem closedPart_self_iff {n : ℕ} (hn : 0 < n) (t : Text) :
    closedPart n t = some t ↔ n + t.count '\x7b' = t.count '\x7d' ∧
      ∀ k < t.length, (t.take k).count '\x7d' < n + (t.take k).count '\x7b' := by
  induction t generalizing n with
  | nil =>
    rw [closedPart, List.count_nil, List.count_nil]
    refine iff_of_false (by rintro ⟨⟩) fun h ↦ ?_
    omega
  | cons c rest ih =>
    have hself : ∀ o : Option Text, o.map (c :: ·) = some (c :: rest) ↔ o = some rest := by
      intro o
      cases o with
      | none => exact iff_of_false (by rintro ⟨⟩) (by rintro ⟨⟩)
      | some x => exact ⟨fun h ↦ congrArg some (List.cons.inj (Option.some.inj h)).2, fun h ↦ by rw [h]; rfl⟩
    have hopened : ∀ x : Text, ('\x7b' :: x).count '\x7b' = x.count '\x7b' + 1 ∧
        ('\x7b' :: x).count '\x7d' = x.count '\x7d' :=
      fun x ↦ ⟨List.count_cons_self, List.count_cons_of_ne (by decide)⟩
    have hclosed : ∀ x : Text, ('\x7d' :: x).count '\x7b' = x.count '\x7b' ∧
        ('\x7d' :: x).count '\x7d' = x.count '\x7d' + 1 :=
      fun x ↦ ⟨List.count_cons_of_ne (by decide), List.count_cons_self⟩
    rw [forall_take_cons (P := fun x ↦ x.count '\x7d' < n + x.count '\x7b'), closedPart]
    by_cases hopen : c = '\x7b'
    · subst hopen
      have hdepth : (n : ℤ) + 1 = (n + 1 : ℕ) := rfl
      rw [if_pos rfl, hself, hdepth, ih (Nat.succ_pos n), (hopened rest).1, (hopened rest).2]
      constructor
      · rintro ⟨htotal, hall⟩
        refine ⟨by omega, by rw [List.count_nil, List.count_nil]; omega, fun k hk ↦ ?_⟩
        have hless := hall k hk
        rw [(hopened _).1, (hopened _).2]
        omega
      · rintro ⟨htotal, -, hall⟩
        refine ⟨by omega, fun k hk ↦ ?_⟩
        have hless := hall k hk
        rw [(hopened _).1, (hopened _).2] at hless
        omega
    · rw [if_neg hopen]
      by_cases hclose : c = '\x7d'
      · subst hclose
        rw [if_pos rfl, (hclosed rest).1, (hclosed rest).2]
        by_cases hone : n = 1
        · -- the count is back at zero here, so nothing may follow
          subst hone
          have hzero : ((1 : ℕ) : ℤ) - 1 = 0 := by omega
          rw [if_pos hzero]
          constructor
          · intro h
            obtain rfl : [] = rest := (List.cons.inj (Option.some.inj h)).2
            exact ⟨rfl, by decide, fun k hk ↦ absurd hk (Nat.not_lt_zero k)⟩
          · rintro ⟨-, -, hall⟩
            cases rest with
            | nil => rfl
            | cons c' rest' =>
              have hless := hall 0 (by rw [List.length_cons]; omega)
              rw [List.take_zero, (hclosed _).1, (hclosed _).2, List.count_nil, List.count_nil] at hless
              omega
        · have hdepth : (n : ℤ) - 1 = (n - 1 : ℕ) := by omega
          have hzero : ¬(n : ℤ) - 1 = 0 := by omega
          rw [if_neg hzero, hself, hdepth, ih (by omega)]
          constructor
          · rintro ⟨htotal, hall⟩
            refine ⟨by omega, by rw [List.count_nil, List.count_nil]; omega, fun k hk ↦ ?_⟩
            have hless := hall k hk
            rw [(hclosed _).1, (hclosed _).2]
            omega
          · rintro ⟨htotal, -, hall⟩
            refine ⟨by omega, fun k hk ↦ ?_⟩
            have hless := hall k hk
            rw [(hclosed _).1, (hclosed _).2] at hless
            omega
      · have hother : ∀ x : Text, (c :: x).count '\x7b' = x.count '\x7b' ∧ (c :: x).count '\x7d' = x.count '\x7d' :=
          fun x ↦ ⟨List.count_cons_of_ne hopen, List.count_cons_of_ne hclose⟩
        rw [if_neg hclose, hself, ih hn, (hother rest).1, (hother rest).2]
        constructor
        · rintro ⟨htotal, hall⟩
          refine ⟨htotal, by rw [List.count_nil, List.count_nil]; omega, fun k hk ↦ ?_⟩
          rw [(hother _).1, (hother _).2]
          exact hall k hk
        · rintro ⟨htotal, -, hall⟩
          refine ⟨htotal, fun k hk ↦ ?_⟩
          have hless := hall k hk
          rw [(hother _).1, (hother _).2] at hless
          exact hless

/-- From its first opening brace a text is found whole exactly when its braces close at its end. -/
theorem closedPart_eq_self_iff (t : Text) :
    closedPart 0 ('\x7b' :: t) = some ('\x7b' :: t) ↔ BracesClose ('\x7b' :: t) := by
  have hself : (closedPart (0 + 1) t).map ('\x7b' :: ·) = some ('\x7b' :: t) ↔ closedPart (1 : ℕ) t = some t := by
    show (closedPart 1 t).map ('\x7b' :: ·) = some ('\x7b' :: t) ↔ closedPart 1 t = some t
    cases closedPart 1 t with
    | none => exact iff_of_false (by rintro ⟨⟩) (by rintro ⟨⟩)
    | some x => exact ⟨fun h ↦ congrArg some (List.cons.inj (Option.some.inj h)).2, fun h ↦ by cases h; rfl⟩
  have hopened : ∀ x : Text, ('\x7b' :: x).count '\x7b' = x.count '\x7b' + 1 ∧
      ('\x7b' :: x).count '\x7d' = x.count '\x7d' :=
    fun x ↦ ⟨List.count_cons_self, List.count_cons_of_ne (by decide)⟩
  rw [closedPart, if_pos rfl, hself, closedPart_self_iff Nat.one_pos, BracesClose, (hopened t).1, (hopened t).2]
  constructor
  · rintro ⟨htotal, hall⟩
    refine ⟨by omega, fun k hpos hk ↦ ?_⟩
    obtain ⟨k, rfl⟩ := Nat.exists_eq_succ_of_ne_zero hpos.ne'
    rw [List.length_cons] at hk
    have hless := hall k (by omega)
    rw [List.take_succ_cons, (hopened _).1, (hopened _).2]
    omega
  · rintro ⟨htotal, hall⟩
    refine ⟨by omega, fun k hk ↦ ?_⟩
    have hless := hall (k + 1) (Nat.succ_pos k) (by rw [List.length_cons]; omega)
    rw [List.take_succ_cons, (hopened _).1, (hopened _).2] at hless
    omega

/-! ### Documents without braces in their texts -/

/-- Every beginning of the text has opening braces for its closing ones, and the whole text has as many of both. -/
def Balanced (t : Text) : Prop :=
  t.count '\x7b' = t.count '\x7d' ∧ ∀ k, (t.take k).count '\x7d' ≤ (t.take k).count '\x7b'

theorem Balanced.append {t x : Text} (ht : Balanced t) (hx : Balanced x) : Balanced (t ++ x) := by
  refine ⟨?_, fun k ↦ ?_⟩
  · rw [List.count_append, List.count_append, ht.1, hx.1]
  · rw [List.take_append, List.count_append, List.count_append]
    exact Nat.add_le_add (ht.2 k) (hx.2 _)

theorem balanced_of_notMem {t : Text} (hopen : '\x7b' ∉ t) (hclose : '\x7d' ∉ t) : Balanced t := by
  refine ⟨?_, fun k ↦ ?_⟩
  · rw [List.count_eq_zero.2 hopen, List.count_eq_zero.2 hclose]
  · rw [List.count_eq_zero.2 fun hmem ↦ hclose (List.mem_of_mem_take hmem)]
    exact Nat.zero_le _

/-- Between one pair of braces, what is balanced closes at the end. -/
theorem Balanced.close {t : Text} (ht : Balanced t) : BracesClose ('\x7b' :: (t ++ ['\x7d'])) := by
  have hopened : ∀ x : Text, ('\x7b' :: x).count '\x7b' = x.count '\x7b' + 1 ∧
      ('\x7b' :: x).count '\x7d' = x.count '\x7d' :=
    fun x ↦ ⟨List.count_cons_self, List.count_cons_of_ne (by decide)⟩
  have hone : (['\x7d'] : Text).count '\x7d' = 1 ∧ (['\x7d'] : Text).count '\x7b' = 0 := by decide
  refine ⟨?_, fun k hpos hk ↦ ?_⟩
  · rw [(hopened _).1, (hopened _).2, List.count_append, List.count_append, hone.1, hone.2, ht.1]
  · obtain ⟨k, rfl⟩ := Nat.exists_eq_succ_of_ne_zero hpos.ne'
    have hle : k ≤ t.length := by
      rw [List.length_cons, List.length_append, List.length_singleton] at hk
      omega
    have hless := ht.2 k
    rw [List.take_succ_cons, (hopened _).1, (hopened _).2, List.take_append_of_le_length hle]
    omega

theorem Balanced.wrap {t : Text} (ht : Balanced t) : Balanced ('\x7b' :: (t ++ ['\x7d'])) := by
  refine ⟨ht.close.1, fun k ↦ ?_⟩
  rcases Nat.eq_zero_or_pos k with rfl | hpos
  · exact le_rfl
  · by_cases hk : k < ('\x7b' :: (t ++ ['\x7d'])).length
    · exact (ht.close.2 k hpos hk).le
    · rw [List.take_of_length_le (not_lt.1 hk)]
      exact ht.close.1.ge

mutual

/-- No key and no text of the document has a brace. -/
def Plain : Json → Prop
  | .str t => '\x7b' ∉ t ∧ '\x7d' ∉ t
  | .arr items => PlainItems items
  | .obj fields => PlainFields fields
  | _ => True

def PlainItems : List Json → Prop
  | [] => True
  | item :: rest => Plain item ∧ PlainItems rest

def PlainFields : List (Text × Json) → Prop
  | [] => True
  | (key, value) :: rest => ('\x7b' ∉ key ∧ '\x7d' ∉ key) ∧ Plain value ∧ PlainFields rest

end

/-- A brace is printed only where there is one. -/
theorem brace_of_mem_escape {b c : Char} (hb : b = '\x7b' ∨ b = '\x7d') (h : b ∈ JsonText.escape c) : b = c := by
  have hdigit : ∀ n, Text.hexDigit (n % 16) ≠ '\x7b' ∧ Text.hexDigit (n % 16) ≠ '\x7d' := by
    have hall : ∀ m : Fin 16, Text.hexDigit m ≠ '\x7b' ∧ Text.hexDigit m ≠ '\x7d' := by decide
    exact fun n ↦ hall ⟨n % 16, Nat.mod_lt n (by decide)⟩
  have hunit : ∀ n, b ∉ JsonText.escapeUnit n := by
    intro n hmem
    simp only [JsonText.escapeUnit, List.mem_cons, List.not_mem_nil, or_false] at hmem
    have hne : ∀ m, b ≠ Text.hexDigit (m % 16) := by
      intro m heq
      rcases hb with rfl | rfl
      · exact (hdigit m).1 heq.symm
      · exact (hdigit m).2 heq.symm
    rcases hmem with hmem | hmem | hmem | hmem | hmem | hmem
    · rcases hb with rfl | rfl <;> exact absurd hmem (by decide)
    · rcases hb with rfl | rfl <;> exact absurd hmem (by decide)
    · exact hne _ hmem
    · exact hne _ hmem
    · exact hne _ hmem
    · exact hne _ hmem
  have hfixed : ∀ d : Char, d ≠ '\x7b' → d ≠ '\x7d' → b ∉ (['\\', d] : Text) := by
    intro d hopen hclose hmem
    rcases List.mem_cons.1 hmem with rfl | hmem
    · rcases hb with hb | hb <;> exact absurd hb (by decide)
    · rw [List.mem_singleton.1 hmem] at hb
      exact hb.elim hopen hclose
  unfold JsonText.escape at h
  split at h
  · exact absurd h (hfixed _ (by decide) (by decide))
  split at h
  · exact absurd h (hfixed _ (by decide) (by decide))
  split at h
  · exact absurd h (hfixed _ (by decide) (by decide))
  split at h
  · exact absurd h (hfixed _ (by decide) (by decide))
  split at h
  · exact absurd h (hfixed _ (by decide) (by decide))
  split at h
  · exact absurd h (hfixed _ (by decide) (by decide))
  split at h
  · exact absurd h (hfixed _ (by decide) (by decide))
  split at h
  · exact List.mem_singleton.1 h
  split at h
  · exact absurd h (hunit _)
  · exact absurd h fun hmem ↦ (List.mem_append.1 hmem).elim (hunit _) (hunit _)

theorem balanced_dumpsText {t : Text} (h : '\x7b' ∉ t ∧ '\x7d' ∉ t) : Balanced (JsonText.dumpsText t) := by
  have hnot : ∀ b : Char, b = '\x7b' ∨ b = '\x7d' → b ∉ t → b ∉ JsonText.dumpsText t := by
    intro b hb hbt hmem
    have hquote : b ≠ '"' := by rcases hb with rfl | rfl <;> decide
    rw [JsonText.dumpsText] at hmem
    rcases List.mem_cons.1 hmem with hmem | hmem
    · exact hquote hmem
    · rcases List.mem_append.1 hmem with hmem | hmem
      · obtain ⟨c, hc, hbc⟩ := List.mem_flatMap.1 hmem
        rw [brace_of_mem_escape hb hbc] at hbt
        exact hbt hc
      · exact hquote (List.mem_singleton.1 hmem)
  exact balanced_of_notMem (hnot _ (.inl rfl) h.1) (hnot _ (.inr rfl) h.2)

theorem balanced_separator (first : Bool) : Balanced (if first then [] else ", ".toList) := by
  cases first with
  | true => exact balanced_of_notMem (by decide) (by decide)
  | false => exact balanced_of_notMem (by decide) (by decide)

mutual

theorem balanced_print {j : Json} (h : Plain j) (hj : JsonText.NumbersOk j) : Balanced (JsonText.print j) := by
  cases j with
  | null => exact balanced_of_notMem (by decide) (by decide)
  | bool b => cases b <;> exact balanced_of_notMem (by decide) (by decide)
  | num rendering zero =>
    rw [JsonText.NumbersOk] at hj
    have hnot : ∀ b : Char, JsonText.isNumberChar b = false → b ∉ rendering := by
      intro b hb hmem
      rw [hj.2.1 b hmem] at hb
      cases hb
    exact balanced_of_notMem (hnot _ (by decide)) (hnot _ (by decide))
  | str t =>
    rw [Plain] at h
    exact balanced_dumpsText h
  | arr items =>
    rw [Plain] at h
    rw [JsonText.NumbersOk] at hj
    have hopen : Balanced ['['] := balanced_of_notMem (by decide) (by decide)
    exact hopen.append (balanced_printItems true h hj)
  | obj fields =>
    rw [Plain] at h
    rw [JsonText.NumbersOk] at hj
    obtain ⟨t, ht, hbalanced⟩ := exists_balanced_printFields true h hj
    rw [JsonText.print, ht]
    exact hbalanced.wrap

theorem balanced_printItems {items : List Json} (first : Bool) (h : PlainItems items)
    (hj : JsonText.NumbersOkItems items) : Balanced (JsonText.printItems first items) := by
  cases items with
  | nil =>
    rw [JsonText.printItems]
    exact balanced_of_notMem (by decide) (by decide)
  | cons item rest =>
    rw [PlainItems] at h
    rw [JsonText.NumbersOkItems] at hj
    rw [JsonText.printItems]
    exact ((balanced_separator first).append (balanced_print h.1 hj.1)).append (balanced_printItems false h.2 hj.2)

theorem exists_balanced_printFields {fields : List (Text × Json)} (first : Bool) (h : PlainFields fields)
    (hj : JsonText.NumbersOkFields fields) :
    ∃ t, JsonText.printFields first fields = t ++ ['\x7d'] ∧ Balanced t := by
  cases fields with
  | nil =>
    rw [JsonText.printFields]
    exact ⟨[], rfl, balanced_of_notMem (by decide) (by decide)⟩
  | cons e rest =>
    obtain ⟨key, value⟩ := e
    rw [PlainFields] at h
    rw [JsonText.NumbersOkFields] at hj
    obtain ⟨t, ht, hbalanced⟩ := exists_balanced_printFields false h.2.2 hj.2
    have hcolon : Balanced ": ".toList := balanced_of_notMem (by decide) (by decide)
    refine ⟨_, ?_, ((((balanced_separator first).append (balanced_dumpsText h.1)).append hcolon).append
      (balanced_print h.2.1 hj.1)).append hbalanced⟩
    rw [JsonText.printFields, ht, List.append_assoc _ t]

end

/-- A document without braces in its keys and texts is one that the re-ranker finds. -/
theorem bracesClose_of_plain {o : Dict} (h : Plain (.obj o)) (ho : JsonText.NumbersOk (.obj o)) :
    BracesClose (JsonText.print (.obj o)) := by
  rw [Plain] at h
  rw [JsonText.NumbersOk] at ho
  obtain ⟨t, ht, hbalanced⟩ := exists_balanced_printFields true h ho
  rw [JsonText.print, ht]
  exact hbalanced.close

/-! ### Where a document is found -/

/-- A part that begins with an opening brace and ends with a closing one lies within the document, where there is
no opening brace before it and no closing one after it. -/
theorem exists_within {pre d suf a part b : Text} (h : a ++ (part ++ b) = pre ++ (d ++ suf))
    (hfirst : part.head? = some '\x7b') (hlast : part.getLast? = some '\x7d') (hpre : '\x7b' ∉ pre)
    (hsuf : '\x7d' ∉ suf) : ∃ x y, d = x ++ (part ++ y) := by
  have hstart : ∃ x, x ++ (part ++ b) = d ++ suf := by
    rcases List.append_eq_append_iff.1 h with ⟨x, hx, hrest⟩ | ⟨x, hx, hrest⟩
    · cases x with
      | nil => exact ⟨[], hrest⟩
      | cons c x =>
        -- the part would begin before the document
        obtain ⟨part', rfl⟩ := List.head?_eq_some_iff.1 hfirst
        have hc : '\x7b' = c := (List.cons.inj hrest).1
        refine absurd ?_ hpre
        rw [hx, hc]
        exact List.mem_append_right _ List.mem_cons_self
    · exact ⟨x, hrest.symm⟩
  obtain ⟨x, hx⟩ := hstart
  rw [← List.append_assoc] at hx
  rcases List.append_eq_append_iff.1 hx with ⟨y, hy, -⟩ | ⟨y, hy, hrest⟩
  · exact ⟨x, y, by rw [hy, List.append_assoc]⟩
  · cases y with
    | nil => exact ⟨x, [], by rw [List.append_nil] at hy ⊢; exact hy.symm⟩
    | cons c y =>
      -- the part would end after the document
      have hend : (x ++ part).getLast? = some '\x7d' := by rw [List.getLast?_append, hlast]; rfl
      rw [hy, List.getLast?_append_cons] at hend
      refine absurd ?_ hsuf
      rw [hrest]
      exact List.mem_append_left _ (List.mem_of_getLast? hend)

section

variable [lib : StandardLibrary]

/-- Whatever is returned was decoded from a part of the text that is found whole from its first brace. -/
theorem exists_part_of_first {text : Text} {value : Json} (h : _first_json_object text = some value) :
    ∃ a part b, text = a ++ (part ++ b) ∧ part.head? = some '\x7b' ∧ part.getLast? = some '\x7d' ∧
      closedPart 0 part = some part ∧ lib.loads part = .ok value := by
  induction text with
  | nil => cases h
  | cons c rest ih =>
    have hlater : _first_json_object rest = some value → ∃ a part b, c :: rest = a ++ (part ++ b) ∧
        part.head? = some '\x7b' ∧ part.getLast? = some '\x7d' ∧ closedPart 0 part = some part ∧
        lib.loads part = .ok value := by
      intro hrest
      obtain ⟨a, part, b, heq, hpart⟩ := ih hrest
      exact ⟨c :: a, part, b, congrArg (c :: ·) heq, hpart⟩
    rw [_first_json_object] at h
    split at h
    next hopen =>
      split at h
      next value' hvalue =>
        cases h
        obtain ⟨part, hpart, hload⟩ := Option.bind_eq_some_iff.1 hvalue
        obtain ⟨⟨b, hb⟩, hlast, hself⟩ := closedPart_eq_some hpart
        have hhead : part.head? = some '\x7b' := by
          cases part with
          | nil => cases hlast
          | cons c' part => rw [List.head?_cons, (List.cons.inj hb).1, hopen]
        refine ⟨[], part, b, hb.symm, hhead, hlast, hself, ?_⟩
        cases hresult : lib.loads part with
        | ok v =>
          rw [hresult] at hload
          cases hload
          rfl
        | error exc =>
          rw [hresult] at hload
          cases hload
      next => exact hlater h
    next => exact hlater h

/-- Text without an opening brace is passed over. -/
theorem first_append {pre : Text} (hpre : '\x7b' ∉ pre) (text : Text) :
    _first_json_object (pre ++ text) = _first_json_object text := by
  induction pre with
  | nil => rfl
  | cons c pre ih =>
    have hc : ¬c = '\x7b' := by
      rintro rfl
      exact hpre List.mem_cons_self
    rw [List.cons_append, _first_json_object, if_neg hc]
    exact ih fun hmem ↦ hpre (List.mem_cons_of_mem _ hmem)

end

theorem print_obj_head (o : Dict) : ∃ t, JsonText.print (.obj o) = '\x7b' :: t := by
  rw [JsonText.print]
  exact ⟨_, rfl⟩

theorem getLast?_printFields (first : Bool) (fields : List (Text × Json)) :
    (JsonText.printFields first fields).getLast? = some '\x7d' := by
  induction fields generalizing first with
  | nil =>
    rw [JsonText.printFields]
    rfl
  | cons e rest ih =>
    obtain ⟨key, value⟩ := e
    rw [JsonText.printFields, List.getLast?_append, ih false]
    rfl

theorem getLast?_print_obj (o : Dict) : (JsonText.print (.obj o)).getLast? = some '\x7d' := by
  rw [JsonText.print, List.getLast?_cons, getLast?_printFields]
  rfl

/-- Without an opening brace before the document and a closing one after it, the part between the first opening
brace and the last closing one is the document. -/
theorem jsonPart_prose {pre suf : Text} (hpre : '\x7b' ∉ pre) (hsuf : '\x7d' ∉ suf) (o : Dict) :
    jsonPart (pre ++ (JsonText.print (.obj o) ++ suf)) = some (JsonText.print (.obj o)) := by
  obtain ⟨t, ht⟩ := print_obj_head o
  have hlast := getLast?_print_obj o
  have hopen : '\x7b' ∈ JsonText.print (.obj o) := by
    rw [ht]
    exact List.mem_cons_self
  have hclose : '\x7d' ∈ JsonText.print (.obj o) := List.mem_of_getLast? hlast
  generalize JsonText.print (.obj o) = d at ht hlast hopen hclose ⊢
  have hboth : ((pre ++ (d ++ suf)).contains '\x7b' && (pre ++ (d ++ suf)).contains '\x7d') = true := by
    rw [Bool.and_eq_true, List.contains_iff_mem, List.contains_iff_mem]
    exact ⟨List.mem_append_right _ (List.mem_append_left _ hopen),
      List.mem_append_right _ (List.mem_append_left _ hclose)⟩
  have hback : ((pre ++ (d ++ suf)).reverse.dropWhile (· ≠ '\x7d')).reverse = pre ++ d := by
    obtain ⟨d', rfl⟩ : ∃ d', d = d' ++ ['\x7d'] := by
      refine ⟨d.dropLast, ?_⟩
      rw [List.dropLast_append_getLast? _ hlast]
    rw [List.reverse_append, List.reverse_append, List.append_assoc, List.dropWhile_append_of_pos]
    · rw [List.reverse_append, List.reverse_singleton, List.singleton_append, List.cons_append,
        List.dropWhile_cons_of_neg (by decide), List.reverse_cons, List.reverse_append, List.reverse_reverse,
        List.reverse_reverse, List.append_assoc]
    · intro c hc
      refine decide_eq_true ?_
      rintro rfl
      exact hsuf (List.mem_reverse.1 hc)
  have hindex : (pre ++ (d ++ suf)).idxOf '\x7b' = pre.length := by
    rw [List.idxOf_append_of_notMem hpre, ht, List.cons_append, List.idxOf_cons_self]
    rfl
  rw [jsonPart, if_pos hboth, hback, hindex, List.drop_left]

/-! ### Both ways of finding it -/

section

variable [lib : StandardLibrary]

/-- The decoder takes nothing but spellings of what it returns. -/
def Faithful (lib : StandardLibrary) : Prop :=
  ∀ t j, lib.loads t = .ok j → ∃ rest, JsonText.Spells t j rest ∧ ∀ c ∈ rest, JsonText.isBlank c = true

/-- A proper part of a printed document, from an opening brace to a closing one, is no spelling of it. -/
theorem eq_print_of_loads (hlib : Faithful lib) {o : Dict} (ho : JsonText.NumbersOk (.obj o)) {x part y : Text}
    (hd : JsonText.print (.obj o) = x ++ (part ++ y)) (hload : lib.loads part = .ok (.obj o)) :
    part = JsonText.print (.obj o) := by
  obtain ⟨rest, hspells, -⟩ := hlib _ _ hload
  have hprintable : ∀ c ∈ part, JsonText.Printable c := by
    intro c hc
    refine (JsonText.printable_print (JsonText.weight (.obj o))).1 (.obj o) le_rfl ho c ?_
    rw [hd]
    exact List.mem_append_right _ (List.mem_append_left _ hc)
  have hbulk := JsonText.bulk_print_le ho hspells hprintable
  rw [hd, JsonText.bulk_append, JsonText.bulk_append] at hbulk
  have hx : x = [] := by
    cases x with
    | nil => rfl
    | cons c x =>
      -- the opening brace of the document would be missing
      obtain ⟨t, ht⟩ := print_obj_head o
      have hc : '\x7b' = c := (List.cons.inj (ht.symm.trans hd)).1
      have hheft : JsonText.heft '\x7b' = 1 := by decide
      rw [JsonText.bulk_cons, ← hc, hheft] at hbulk
      omega
  have hy : y = [] := by
    rcases List.eq_nil_or_concat y with hnil | ⟨y', c, hy'⟩
    · exact hnil
    · -- the closing brace of the document would be missing
      have hlast := getLast?_print_obj o
      rw [hd, hy', ← List.append_assoc, List.concat_eq_append, ← List.append_assoc,
        List.getLast?_append_cons] at hlast
      have hc : c = '\x7d' := Option.some.inj hlast
      have hheft : JsonText.bulk ['\x7d'] = 1 := by decide
      rw [hy', List.concat_eq_append, JsonText.bulk_append, hc, hheft] at hbulk
      omega
  rw [hd, hx, hy, List.nil_append, List.append_nil]

/-- The re-ranker finds the document exactly when its braces, counted in its texts as well, close at its end. -/
theorem first_json_object_iff (hlib : Faithful lib) {o : Dict} (ho : JsonText.NumbersOk (.obj o))
    (hback : lib.loads (JsonText.print (.obj o)) = .ok (.obj o)) {pre suf : Text} (hpre : '\x7b' ∉ pre)
    (hsuf : '\x7d' ∉ suf) :
    _first_json_object (pre ++ (JsonText.print (.obj o) ++ suf)) = some (.obj o) ↔
      BracesClose (JsonText.print (.obj o)) := by
  obtain ⟨t, ht⟩ := print_obj_head o
  constructor
  · intro h
    obtain ⟨a, part, b, htext, hfirst, hlast, hself, hload⟩ := exists_part_of_first h
    obtain ⟨x, y, hd⟩ := exists_within htext.symm hfirst hlast hpre hsuf
    have hpart := eq_print_of_loads hlib ho hd hload
    rw [hpart, ht] at hself
    rw [ht]
    exact (closedPart_eq_self_iff t).1 hself
  · intro h
    rw [ht] at h
    have hfound := closedPart_append ((closedPart_eq_self_iff t).2 h) suf
    rw [first_append hpre, ht, List.cons_append, _first_json_object, if_pos rfl, ← List.cons_append, hfound,
      Option.bind_some, ← ht, hback]
    rfl

variable [u : UnicodeTables]

/-- The decision that a document makes. -/
def decisionFrom (o : Dict) : Except Raised BrainDecision := do
  let confidence ← if _is_num (o.get "confidence") then lib.float (o.get "confidence")
    else .ok (.finite (6 / 10))
  return {
    action := (o.getD "action" (.text "proceed")).toText
    reasoning := (o.getD "reasoning" (.text "")).toText.take 280
    params := ((o.get "params").dict?).getD []
    confidence }

/-- The re-ranker finds the document in the text, and the brain builds its decision from it. -/
structure Recovered (o : Dict) (text : Text) : Prop where
  first : _first_json_object text = some (.obj o)
  decision : ∃ d, decisionFrom o = .ok d ∧ _parse_decision text = .ok d

theorem parse_decision_prose {pre suf : Text} (hpre : '\x7b' ∉ pre) (hsuf : '\x7d' ∉ suf) {o : Dict}
    (hback : lib.loads (JsonText.print (.obj o)) = .ok (.obj o)) :
    _parse_decision (pre ++ (JsonText.print (.obj o) ++ suf)) = decisionFrom o := by
  rw [_parse_decision, jsonPart_prose hpre hsuf o]
  show (lib.loads (JsonText.print (.obj o)) >>= fun value ↦ value.asDict >>= fun obj ↦ _) = _
  rw [hback]
  rfl

theorem decisionFrom_isOk_iff (o : Dict) :
    (∃ d, decisionFrom o = .ok d) ↔
      (_is_num (o.get "confidence") = true → ∃ x, lib.float (o.get "confidence") = .ok x) := by
  unfold decisionFrom
  split
  next hnum =>
    cases hfloat : lib.float (o.get "confidence") with
    | ok x => exact iff_of_true ⟨_, rfl⟩ fun _ ↦ ⟨x, rfl⟩
    | error exc =>
      refine iff_of_false ?_ fun h ↦ ?_
      · rintro ⟨d, ⟨⟩⟩
      · obtain ⟨x, hx⟩ := h hnum
        cases hx
  next hnum => exact iff_of_true ⟨_, rfl⟩ fun h ↦ absurd h hnum

/-- **Both ways find the document** exactly when its braces, counted in its texts as well, close at its end, and
its confidence, if it is a number, is one for the machine. -/
theorem recovered_iff (hlib : Faithful lib) (o : Dict) (ho : JsonText.NumbersOk (.obj o))
    (hback : lib.loads (JsonText.print (.obj o)) = .ok (.obj o)) (pre suf : Text) (hpre : '\x7b' ∉ pre)
    (hsuf : '\x7d' ∉ suf) :
    Recovered o (pre ++ (JsonText.print (.obj o) ++ suf)) ↔
      BracesClose (JsonText.print (.obj o)) ∧
        (_is_num (o.get "confidence") = true → ∃ x, lib.float (o.get "confidence") = .ok x) := by
  rw [← first_json_object_iff hlib ho hback hpre hsuf, ← decisionFrom_isOk_iff]
  constructor
  · rintro ⟨hfirst, d, hd, -⟩
    exact ⟨hfirst, d, hd⟩
  · rintro ⟨hfirst, d, hd⟩
    exact ⟨hfirst, d, hd, (parse_decision_prose hpre hsuf hback).trans hd⟩

end

section

attribute [local instance] asciiTables

/-- A library whose decoder is the reader of printed documents. -/
@[reducible] def proseLibrary : StandardLibrary where
  compile _ := .ok ()
  search pattern text := Text.hasInfix pattern text
  loads text := ((JsonText.loads text).map Except.ok).getD (.error .ValueError)
  float _ := .ok (.finite 1)
  render _ := ""
  fullmatch pattern text := pattern = text
  sub _ _ text := .ok text
  int _ := .error .ValueError
  format template _ := .ok template

/-- A decision with a sure confidence. -/
def sureDecision : Dict := Dict.recipe [("action", .text "probe"), ("confidence", .num "1".toList false)]

/-- A library that decodes the printed text of that decision. -/
@[reducible] def sureLibrary : StandardLibrary := { proseLibrary with
  loads := fun text ↦
    if text = JsonText.print (.obj sureDecision) then .ok (.obj sureDecision) else .error .ValueError }

theorem numbersOk_sureDecision : JsonText.NumbersOk (.obj sureDecision) := by
  have hdigit : ∀ c ∈ "1".toList, JsonText.isNumberChar c = true :=
    List.all_eq_true.1 (show List.all "1".toList JsonText.isNumberChar = true by decide)
  simp only [sureDecision, Dict.recipe, List.map_cons, List.map_nil, JsonText.NumbersOk, JsonText.NumbersOkFields,
    Json.text, and_true, true_and]
  exact ⟨by decide, hdigit, by decide⟩

theorem faithful_sureLibrary : Faithful sureLibrary := by
  intro t j h
  by_cases ht : t = JsonText.print (.obj sureDecision)
  · have hj : (.ok (.obj sureDecision) : Except Raised Json) = .ok j := by
      rw [← h]
      exact (if_pos ht).symm
    cases hj
    refine ⟨[], ?_, by rintro c ⟨⟩⟩
    have hspells := JsonText.spells_print numbersOk_sureDecision []
    rw [List.append_nil, ← ht] at hspells
    exact hspells
  · have herror : (.error .ValueError : Except Raised Json) = .ok j := by
      rw [← h]
      exact (if_neg ht).symm
    cases herror

/-- That decision is found in prose. -/
theorem recovered_sureDecision :
    @Recovered sureLibrary asciiTables sureDecision
      ("Sure: ".toList ++ (JsonText.print (.obj sureDecision) ++ ".".toList)) := by
  have hpre : '\x7b' ∉ "Sure: ".toList := by decide
  have hsuf : '\x7d' ∉ ".".toList := by decide
  exact (@recovered_iff sureLibrary asciiTables faithful_sureLibrary sureDecision numbersOk_sureDecision
    (if_pos rfl) _ _ hpre hsuf).2 ⟨by decide +kernel, fun _ ↦ ⟨_, rfl⟩⟩

/-- A text with a closing brace in it. -/
def braceText : Dict := Dict.recipe [("a", .text "\x7d")]

/-- The count is back at zero inside the text: the document is read back, but it is not found. -/
theorem braceText_not_recovered :
    proseLibrary.loads (JsonText.print (.obj braceText)) = .ok (.obj braceText) ∧
      ¬@Recovered proseLibrary asciiTables braceText (JsonText.print (.obj braceText)) := by
  constructor
  · have hnumbers : JsonText.NumbersOk (.obj braceText) := by
      simp only [braceText, Dict.recipe, List.map_cons, List.map_nil, JsonText.NumbersOk, JsonText.NumbersOkFields,
        Json.text, and_self]
    show ((JsonText.loads _).map Except.ok).getD _ = _
    rw [JsonText.loads_print hnumbers]
    rfl
  · intro h
    have hnone : (@_first_json_object proseLibrary (JsonText.print (.obj braceText))).isNone = true := by
      decide +kernel
    rw [@Recovered.first proseLibrary asciiTables _ _ h] at hnone
    cases hnone

end

end Sentrik
