import Mathlib.Algebra.GroupWithZero.Nat
import Mathlib.Algebra.Order.BigOperators.Group.List
import Mathlib.Algebra.Order.Group.Nat
import Mathlib.Data.List.Perm.Subperm
import Sentrik.Library.JsonReader

/-!
# The grammar of documents

`Spells t j rest`: the text `t` begins with a document that means `j`, and `rest` is what follows it. Blanks are
free, a character may stand for itself or be written with an escape, a number may be written in any way, and of
several entries with one key a reader may keep some.

## A measure that spelling cannot lower

A character is *heavy* unless it is a blank, a character of numbers, a hexadecimal digit or a backslash. No way
of spelling a document has fewer heavy characters than its printed text (`bulk_print_le`), so that a part of a
printed document that lacks one of them spells something else.
-/

namespace JsonText

/-! ### Characters -/

/-- The value of a hexadecimal digit, in either case. -/
def hexOf (c : Char) : Option ℕ :=
  if c.isDigit then some (c.toNat - 48)
  else if 97 ≤ c.toNat ∧ c.toNat ≤ 102 then some (c.toNat - 87)
  else if 65 ≤ c.toNat ∧ c.toNat ≤ 70 then some (c.toNat - 55)
  else none

/-- The code unit that four hexadecimal digits denote. -/
def hexUnit (a b c d : Char) : Option ℕ := do
  return 4096 * (← hexOf a) + 256 * (← hexOf b) + 16 * (← hexOf c) + (← hexOf d)

/-- The escapes of one letter, with the characters they stand for. -/
def shortEscapes : List (Char × Char) := [
  ('"', '"'), ('\\', '\\'), ('/', '/'), ('b', Char.ofNat 8), ('f', Char.ofNat 12), ('n', '\n'), ('r', '\r'),
  ('t', '\t')]

/-- The text begins with a spelling of the character. -/
inductive SpellsChar : Text → Char → Text → Prop
  | raw {c : Char} {rest : Text} (hquote : c ≠ '"') (hslash : c ≠ '\\') : SpellsChar (c :: rest) c rest
  | short {e c : Char} {rest : Text} (h : (e, c) ∈ shortEscapes) : SpellsChar ('\\' :: e :: rest) c rest
  | unicode {a b c d value : Char} {rest : Text} (h : hexUnit a b c d = some value.toNat) :
    SpellsChar ('\\' :: 'u' :: a :: b :: c :: d :: rest) value rest
  | pair {a b c d a' b' c' d' value : Char} {rest : Text} {high low : ℕ} (hhigh : hexUnit a b c d = some high)
    (hlow : hexUnit a' b' c' d' = some low) (hhighs : 0xD800 ≤ high ∧ high < 0xDC00)
    (hlows : 0xDC00 ≤ low ∧ low < 0xE000)
    (hvalue : value.toNat = 0x10000 + 0x400 * (high - 0xD800) + (low - 0xDC00)) :
    SpellsChar ('\\' :: 'u' :: a :: b :: c :: d :: '\\' :: 'u' :: a' :: b' :: c' :: d' :: rest) value rest

/-- The characters of a text, up to its closing quotation mark. -/
inductive SpellsText : Text → Text → Text → Prop
  | close {rest : Text} : SpellsText ('"' :: rest) [] rest
  | char {t x rest s : Text} {c : Char} (h : SpellsChar t c x) (hrest : SpellsText x s rest) :
    SpellsText t (c :: s) rest

/-! ### Documents -/

/-- Blanks, and then this character. -/
def Skips (t : Text) (c : Char) (rest : Text) : Prop :=
  ∃ blanks : Text, (∀ b ∈ blanks, isBlank b = true) ∧ t = blanks ++ c :: rest

/-- A separator in front of each entry but the first. -/
def Separated (first : Bool) (t rest : Text) : Prop := if first then rest = t else Skips t ',' rest

/-- A number as it may be written; readers take three words as well. -/
def SpellsNumber (r : Text) : Prop :=
  (r ≠ [] ∧ ∀ c ∈ r, isNumberChar c = true) ∨ r ∈ ["NaN".toList, "Infinity".toList, "-Infinity".toList]

mutual

/-- The text begins with a document. -/
inductive Spells : Text → Json → Text → Prop
  | blank {c : Char} {t : Text} {j : Json} {rest : Text} (hc : isBlank c = true) (h : Spells t j rest) :
    Spells (c :: t) j rest
  | null {rest : Text} : Spells ("null".toList ++ rest) .null rest
  | bool {b : Bool} {rest : Text} : Spells (dumpsBool b ++ rest) (.bool b) rest
  | num {r rendering : Text} {zero : Bool} {rest : Text} (h : SpellsNumber r) :
    Spells (r ++ rest) (.num rendering zero) rest
  | str {t s rest : Text} (h : SpellsText t s rest) : Spells ('"' :: t) (.str s) rest
  | arr {t : Text} {items : List Json} {rest : Text} (h : SpellsItems true t items rest) :
    Spells ('[' :: t) (.arr items) rest
  | obj {t : Text} {entries fields : List (Text × Json)} {rest : Text} (h : SpellsFields true t entries rest)
    (hkeep : fields.Subperm entries) : Spells ('\x7b' :: t) (.obj fields) rest

inductive SpellsItems : Bool → Text → List Json → Text → Prop
  | close {first : Bool} {t rest : Text} (h : Skips t ']' rest) : SpellsItems first t [] rest
  | item {first : Bool} {t x y rest : Text} {item : Json} {items : List Json} (hsep : Separated first t x)
    (h : Spells x item y) (hrest : SpellsItems false y items rest) : SpellsItems first t (item :: items) rest

inductive SpellsFields : Bool → Text → List (Text × Json) → Text → Prop
  | close {first : Bool} {t rest : Text} (h : Skips t '\x7d' rest) : SpellsFields first t [] rest
  | entry {first : Bool} {t x y z v w rest key : Text} {value : Json} {entries : List (Text × Json)}
    (hsep : Separated first t x) (hquote : Skips x '"' y) (hkey : SpellsText y key z) (hcolon : Skips z ':' v)
    (h : Spells v value w) (hrest : SpellsFields false w entries rest) :
    SpellsFields first t ((key, value) :: entries) rest

end

/-! ### Heavy characters -/

def isHexLetter (c : Char) : Bool := (97 ≤ c.toNat && c.toNat ≤ 102) || (65 ≤ c.toNat && c.toNat ≤ 70)

def heavy (c : Char) : Bool := !(isBlank c || isNumberChar c || isHexLetter c || c == '\\')

/-- How many heavy characters a text has. -/
def bulk (t : Text) : ℕ := t.countP heavy

theorem bulk_nil : bulk [] = 0 := rfl

theorem bulk_append (t x : Text) : bulk (t ++ x) = bulk t + bulk x := List.countP_append

def heft (c : Char) : ℕ := if heavy c then 1 else 0

theorem bulk_cons (c : Char) (t : Text) : bulk (c :: t) = heft c + bulk t := by
  rw [bulk, List.countP_cons, Nat.add_comm]
  rfl

theorem bulk_singleton_le (c : Char) : bulk [c] ≤ 1 := List.countP_le_length

theorem heft_hexDigit (n : ℕ) : heft (Text.hexDigit (n % 16)) = 0 := by
  have hall : ∀ m : Fin 16, heft (Text.hexDigit m) = 0 := by decide
  exact hall ⟨n % 16, Nat.mod_lt n (by decide)⟩

theorem bulk_escapeUnit (n : ℕ) : bulk (escapeUnit n) = 1 := by
  have hslash : heft '\\' = 0 := by decide
  have hu : heft 'u' = 1 := by decide
  rw [escapeUnit, bulk_cons, bulk_cons, bulk_cons, bulk_cons, bulk_cons, bulk_cons, heft_hexDigit, heft_hexDigit,
    heft_hexDigit, heft_hexDigit, hslash, hu, bulk_nil]

/-- A printed character of the first plane has one heavy character at most. -/
theorem bulk_escape_le_one {c : Char} (h : c.toNat < 0x10000) : bulk (escape c) ≤ 1 := by
  unfold escape
  split
  · decide
  split
  · decide
  split
  · decide
  split
  · decide
  split
  · decide
  split
  · decide
  split
  · decide
  split
  · exact bulk_singleton_le c
  · exact (bulk_escapeUnit _).le

theorem bulk_escape_le_two (c : Char) : bulk (escape c) ≤ 2 := by
  by_cases h : c.toNat < 0x10000
  · exact (bulk_escape_le_one h).trans (by decide)
  · unfold escape
    split
    · decide
    split
    · decide
    split
    · decide
    split
    · decide
    split
    · decide
    split
    · decide
    split
    · decide
    split
    next hprint => omega
    · rw [bulk_append, bulk_escapeUnit, bulk_escapeUnit]

/-- A printable character that needs no escape is printed as it is. -/
theorem escape_of_printable {c : Char} (h : Printable c) (hquote : c ≠ '"') (hslash : c ≠ '\\') :
    escape c = [c] := by
  have hne : ∀ d : Char, d.toNat < 32 → c ≠ d := by
    rintro d hd rfl
    exact absurd h.1 (not_le.2 hd)
  have h12 : c.toNat ≠ 12 := by
    have hlow := h.1
    omega
  have h8 : c.toNat ≠ 8 := by
    have hlow := h.1
    omega
  rw [escape, if_neg hquote, if_neg hslash, if_neg (hne _ (by decide)), if_neg (hne _ (by decide)),
    if_neg (hne _ (by decide)), if_neg h12, if_neg h8]
  exact if_pos h

theorem hexOf_lt {c : Char} {n : ℕ} (h : hexOf c = some n) : n < 16 := by
  unfold hexOf at h
  split at h
  next hdigit =>
    have hle : c.toNat ≤ 57 := by
      simp only [Char.isDigit, Bool.and_eq_true, decide_eq_true_eq] at hdigit
      exact UInt32.le_iff_toNat_le.1 hdigit.2
    cases h
    omega
  next =>
    split at h
    · cases h
      omega
    · split at h
      · cases h
        omega
      · cases h

theorem hexUnit_lt {a b c d : Char} {n : ℕ} (h : hexUnit a b c d = some n) : n < 0x10000 := by
  obtain ⟨n₁, h₁, h⟩ := Option.bind_eq_some_iff.1 h
  obtain ⟨n₂, h₂, h⟩ := Option.bind_eq_some_iff.1 h
  obtain ⟨n₃, h₃, h⟩ := Option.bind_eq_some_iff.1 h
  obtain ⟨n₄, h₄, h⟩ := Option.bind_eq_some_iff.1 h
  cases h
  have hlt₁ := hexOf_lt h₁
  have hlt₂ := hexOf_lt h₂
  have hlt₃ := hexOf_lt h₃
  have hlt₄ := hexOf_lt h₄
  omega

/-- What is read from a text, up to what is left of it, has at least so many heavy characters, if the text is
printable. -/
def Takes (t rest : Text) (n : ℕ) : Prop := rest <:+ t ∧ ((∀ d ∈ t, Printable d) → n + bulk rest ≤ bulk t)

theorem Takes.trans {t x rest : Text} {n m : ℕ} (h : Takes t x n) (h' : Takes x rest m) : Takes t rest (n + m) := by
  refine ⟨h'.1.trans h.1, fun ht ↦ ?_⟩
  have hle := h.2 ht
  have hle' := h'.2 fun d hd ↦ ht d (h.1.subset hd)
  omega

theorem Takes.mono {t rest : Text} {n m : ℕ} (h : Takes t rest n) (hle : m ≤ n) : Takes t rest m :=
  ⟨h.1, fun ht ↦ (Nat.add_le_add_right hle _).trans (h.2 ht)⟩

theorem Takes.append (x rest : Text) : Takes (x ++ rest) rest (bulk x) :=
  ⟨List.suffix_append x rest, fun _ ↦ (bulk_append x rest).ge⟩

theorem Takes.cons (c : Char) (rest : Text) : Takes (c :: rest) rest (heft c) :=
  ⟨List.suffix_cons c rest, fun _ ↦ (bulk_cons c rest).ge⟩

/-- However a character is spelled, it takes no fewer heavy characters than its printed form. -/
theorem SpellsChar.takes {t rest : Text} {c : Char} (h : SpellsChar t c rest) : Takes t rest (bulk (escape c)) := by
  have hu : heft 'u' = 1 := by decide
  cases h with
  | raw hquote hslash =>
    refine ⟨List.suffix_cons c rest, fun ht ↦ ?_⟩
    rw [escape_of_printable (ht c List.mem_cons_self) hquote hslash, bulk_cons c rest, bulk_cons c [], bulk_nil]
    omega
  | @short e _ _ h =>
    have hall : shortEscapes.all (fun p ↦ bulk (escape p.2) ≤ heft p.1) = true := by decide
    have hle : bulk (escape c) ≤ heft e := of_decide_eq_true (List.all_eq_true.1 hall _ h)
    exact ((Takes.cons '\\' (e :: rest)).trans (.cons e rest)).mono (hle.trans (Nat.le_add_left _ _))
  | @unicode a b x d _ _ h =>
    refine (Takes.append ['\\', 'u', a, b, x, d] rest).mono ?_
    have hle := bulk_escape_le_one (hexUnit_lt h)
    rw [bulk_cons, bulk_cons 'u', hu]
    omega
  | @pair a b x d a' b' x' d' _ _ _ _ hhigh hlow hhighs hlows hvalue =>
    refine (Takes.append ['\\', 'u', a, b, x, d, '\\', 'u', a', b', x', d'] rest).mono ?_
    have hle := bulk_escape_le_two c
    rw [bulk_cons, bulk_cons 'u', bulk_cons, bulk_cons, bulk_cons, bulk_cons, bulk_cons, bulk_cons 'u', hu]
    omega

theorem SpellsText.takes {t s rest : Text} (h : SpellsText t s rest) :
    Takes t rest (bulk (s.flatMap escape) + 1) := by
  induction h with
  | @close rest => exact (Takes.cons '"' rest).mono (by decide)
  | char h _ ih =>
    refine (h.takes.trans ih).mono ?_
    rw [List.flatMap_cons, bulk_append]
    omega

theorem Skips.takes {t rest : Text} {c : Char} (h : Skips t c rest) : Takes t rest (heft c) := by
  obtain ⟨blanks, -, rfl⟩ := h
  exact ((Takes.append blanks (c :: rest)).trans (.cons c rest)).mono (Nat.le_add_left _ _)

theorem Separated.takes {first : Bool} {t rest : Text} (h : Separated first t rest) :
    Takes t rest (if first then 0 else 1) := by
  cases first with
  | true =>
    obtain rfl : rest = t := h
    exact Takes.append [] rest
  | false => exact Skips.takes h

/-! ### Heavy characters of a document -/

mutual

/-- How many heavy characters the printed document has, those of its numbers left out. -/
def solid : Json → ℕ
  | .null => bulk "null".toList
  | .bool b => bulk (dumpsBool b)
  | .num _ _ => 0
  | .str t => bulk (dumpsText t)
  | .arr items => 1 + solidItems true items
  | .obj fields => 1 + solidFields true fields

def solidItems : Bool → List Json → ℕ
  | _, [] => 1
  | first, item :: rest => (if first then 0 else 1) + solid item + solidItems false rest

def solidFields : Bool → List (Text × Json) → ℕ
  | _, [] => 1
  | first, (key, value) :: rest =>
    (if first then 0 else 1) + bulk (dumpsText key) + 1 + solid value + solidFields false rest

end

theorem bulk_number {rendering : Text} (h : ∀ c ∈ rendering, isNumberChar c = true) : bulk rendering = 0 := by
  rw [bulk, List.countP_eq_zero]
  intro c hc
  rw [heavy, h c hc, Bool.or_true, Bool.true_or, Bool.true_or]
  decide

mutual

theorem bulk_print {j : Json} (h : NumbersOk j) : bulk (print j) = solid j := by
  cases j with
  | null => rfl
  | bool b => rfl
  | num rendering zero =>
    rw [NumbersOk] at h
    rw [print, solid, bulk_number h.2.1]
  | str t => rfl
  | arr items =>
    rw [NumbersOk] at h
    have hopen : heft '[' = 1 := by decide
    rw [print, solid, bulk_cons, hopen, bulk_printItems true h]
  | obj fields =>
    rw [NumbersOk] at h
    have hopen : heft '\x7b' = 1 := by decide
    rw [print, solid, bulk_cons, hopen, bulk_printFields true h]

theorem bulk_printItems {items : List Json} (first : Bool) (h : NumbersOkItems items) :
    bulk (printItems first items) = solidItems first items := by
  cases items with
  | nil =>
    rw [printItems, solidItems]
    decide
  | cons item rest =>
    rw [NumbersOkItems] at h
    have hsep : bulk (if first then [] else ", ".toList) = if first then 0 else 1 := by
      cases first <;> decide
    rw [printItems, solidItems, bulk_append, bulk_append, hsep, bulk_print h.1, bulk_printItems false h.2]

theorem bulk_printFields {fields : List (Text × Json)} (first : Bool) (h : NumbersOkFields fields) :
    bulk (printFields first fields) = solidFields first fields := by
  cases fields with
  | nil =>
    rw [printFields, solidFields]
    decide
  | cons e rest =>
    obtain ⟨key, value⟩ := e
    rw [NumbersOkFields] at h
    have hsep : bulk (if first then [] else ", ".toList) = if first then 0 else 1 := by
      cases first <;> decide
    have hcolon : bulk ": ".toList = 1 := by decide
    rw [printFields, solidFields, bulk_append, bulk_append, bulk_append, bulk_append, hsep, hcolon, bulk_print h.1,
      bulk_printFields false h.2]

end

/-! ### Spelling cannot lower it -/

/-- What an entry adds, with its separator. -/
def solidEntry (e : Text × Json) : ℕ := bulk (dumpsText e.1) + 1 + solid e.2 + 1

theorem solidFields_false (fields : List (Text × Json)) :
    solidFields false fields = (fields.map solidEntry).sum + 1 := by
  induction fields with
  | nil => rfl
  | cons e rest ih =>
    obtain ⟨key, value⟩ := e
    rw [solidFields, ih, if_neg (by decide), List.map_cons, List.sum_cons, solidEntry]
    dsimp only
    omega

/-- Keeping only some of the entries makes a document no larger. -/
theorem solidFields_le_of_subperm {fields entries : List (Text × Json)} (h : fields.Subperm entries) :
    solidFields true fields ≤ solidFields true entries := by
  obtain ⟨kept, hperm, hsub⟩ := h
  have hsum : (fields.map solidEntry).sum ≤ (entries.map solidEntry).sum := by
    rw [← (hperm.map solidEntry).sum_nat]
    exact (hsub.map solidEntry).sum_le_sum fun _ _ ↦ Nat.zero_le _
  have hclosed : ∀ l : List (Text × Json),
      solidFields true l + (if l = [] then 0 else 1) = (l.map solidEntry).sum + 1 := by
    intro l
    cases l with
    | nil => rfl
    | cons e rest =>
      obtain ⟨key, value⟩ := e
      rw [solidFields, solidFields_false, if_pos rfl, if_neg (List.cons_ne_nil _ _), List.map_cons, List.sum_cons,
        solidEntry]
      dsimp only
      omega
  have hfields := hclosed fields
  have hentries := hclosed entries
  by_cases hnil : fields = []
  · cases entries with
    | nil => rw [hnil]
    | cons e rest =>
      rw [hnil] at hfields ⊢
      rw [if_neg (List.cons_ne_nil _ _), List.map_cons, List.sum_cons, solidEntry] at hentries
      have hone : solidFields true [] = 1 := rfl
      omega
  · rw [if_neg hnil] at hfields
    split at hentries
    next hempty =>
      rw [hempty] at hsum
      obtain ⟨e, rest, rfl⟩ := List.exists_cons_of_ne_nil hnil
      rw [List.map_cons, List.sum_cons, List.map_nil, List.sum_nil, solidEntry] at hsum
      omega
    next => omega

theorem bulk_dumpsText (s : Text) : bulk (dumpsText s) = 1 + bulk (s.flatMap escape) + 1 := by
  have hquote : heft '"' = 1 := by decide
  rw [dumpsText, bulk_cons, bulk_append, bulk_cons, hquote, bulk_nil, Nat.add_assoc]

theorem Spells.takes {t rest : Text} {j : Json} (h : Spells t j rest) : Takes t rest (solid j) := by
  refine @Spells.rec (fun t j rest _ ↦ Takes t rest (solid j))
    (fun first t items rest _ ↦ Takes t rest (solidItems first items))
    (fun first t entries rest _ ↦ Takes t rest (solidFields first entries)) ?_ ?_ ?_ ?_ ?_ ?_ ?_ ?_ ?_ ?_ ?_
    t j rest h
  · intro c t j rest _ _ ih
    exact ((Takes.cons c t).trans ih).mono (Nat.le_add_left _ _)
  · exact fun {rest} ↦ Takes.append _ rest
  · exact fun {b rest} ↦ Takes.append (dumpsBool b) rest
  · intro r rendering zero rest _
    exact (Takes.append r rest).mono (Nat.zero_le _)
  · intro t s rest h
    refine ((Takes.cons '"' t).trans h.takes).mono ?_
    have hquote : heft '"' = 1 := by decide
    rw [solid, bulk_dumpsText, hquote]
    omega
  · intro t items rest _ ih
    exact ((Takes.cons '[' t).trans ih).mono le_rfl
  · intro t entries fields rest _ hkeep ih
    refine ((Takes.cons '\x7b' t).trans ih).mono ?_
    exact Nat.add_le_add_left (solidFields_le_of_subperm hkeep) 1
  · exact fun {first t rest} h ↦ h.takes
  · intro first t x y rest item items hsep _ _ ih ihrest
    refine ((hsep.takes.trans ih).trans ihrest).mono ?_
    rw [solidItems]
  · exact fun {first t rest} h ↦ h.takes
  · intro first t x y z v w rest key value entries hsep hquote hkey hcolon _ _ ih ihrest
    refine (((((hsep.takes.trans hquote.takes).trans hkey.takes).trans hcolon.takes).trans ih).trans ihrest).mono ?_
    have hopen : heft '"' = 1 := by decide
    have hmark : heft ':' = 1 := by decide
    rw [solidFields, bulk_dumpsText, hopen, hmark]
    omega

/-- **No spelling of a document has fewer heavy characters than its printed text.** -/
theorem bulk_print_le {t rest : Text} {j : Json} (hj : NumbersOk j) (h : Spells t j rest)
    (ht : ∀ d ∈ t, Printable d) : bulk (print j) ≤ bulk t := by
  have hle := h.takes.2 ht
  rw [bulk_print hj]
  omega

/-! ### Printing is a spelling -/

theorem hexOf_hexDigit (n : ℕ) : hexOf (Text.hexDigit (n % 16)) = some (n % 16) := by
  have hall : ∀ m : Fin 16, hexOf (Text.hexDigit m) = some m.1 := by decide
  exact hall ⟨n % 16, Nat.mod_lt n (by decide)⟩

theorem hexUnit_hexDigits {n : ℕ} (h : n < 0x10000) :
    hexUnit (Text.hexDigit (n / 4096 % 16)) (Text.hexDigit (n / 256 % 16)) (Text.hexDigit (n / 16 % 16))
      (Text.hexDigit (n % 16)) = some n := by
  have hdigits : 4096 * (n / 4096 % 16) + 256 * (n / 256 % 16) + 16 * (n / 16 % 16) + n % 16 = n := by omega
  rw [hexUnit, hexOf_hexDigit, hexOf_hexDigit, hexOf_hexDigit, hexOf_hexDigit]
  exact congrArg some hdigits

theorem spellsChar_escape (c : Char) (rest : Text) : SpellsChar (escape c ++ rest) c rest := by
  have hvalid : c.toNat < 0xD800 ∨ 0xDFFF < c.toNat ∧ c.toNat < 0x110000 := c.valid
  have hcode : ∀ n, c.toNat = n → c = Char.ofNat n := by
    intro n hn
    rw [← hn, Char.ofNat_toNat]
  unfold escape
  split
  next h =>
    rw [h]
    exact .short (by decide)
  next hquote =>
  split
  next h =>
    rw [h]
    exact .short (by decide)
  next hslash =>
  split
  next h =>
    rw [h]
    exact .short (by decide)
  split
  next h =>
    rw [h]
    exact .short (by decide)
  split
  next h =>
    rw [h]
    exact .short (by decide)
  split
  next h =>
    rw [hcode 12 h]
    exact .short (by decide)
  split
  next h =>
    rw [hcode 8 h]
    exact .short (by decide)
  split
  · exact .raw hquote hslash
  split
  next hplane => exact .unicode (hexUnit_hexDigits hplane)
  next hplane =>
    have hhigh : 0xD800 + (c.toNat - 0x10000) / 0x400 < 0x10000 := by omega
    have hlow : 0xDC00 + (c.toNat - 0x10000) % 0x400 < 0x10000 := by omega
    exact .pair (hexUnit_hexDigits hhigh) (hexUnit_hexDigits hlow) (by omega) (by omega) (by omega)

theorem spellsText_flatMap (s rest : Text) : SpellsText (s.flatMap escape ++ '"' :: rest) s rest := by
  induction s with
  | nil => exact .close
  | cons c s ih =>
    rw [List.flatMap_cons, List.append_assoc]
    exact .char (spellsChar_escape c _) ih

theorem spellsText_dumpsText (s rest : Text) : ∃ t, dumpsText s ++ rest = '"' :: t ∧ SpellsText t s rest := by
  refine ⟨s.flatMap escape ++ '"' :: rest, ?_, spellsText_flatMap s rest⟩
  rw [dumpsText, List.cons_append, List.append_assoc]
  rfl

theorem separated_print (first : Bool) (x : Text) :
    ∃ y, Separated first ((if first then [] else ", ".toList) ++ x) y ∧ (y = x ∨ y = ' ' :: x) := by
  cases first with
  | true => exact ⟨x, rfl, .inl rfl⟩
  | false => exact ⟨' ' :: x, ⟨[], by rintro b ⟨⟩, rfl⟩, .inr rfl⟩

mutual

/-- **The printed text spells the document.** -/
theorem spells_print {j : Json} (h : NumbersOk j) (rest : Text) : Spells (print j ++ rest) j rest := by
  cases j with
  | null => exact .null
  | bool b => exact .bool
  | num rendering zero =>
    rw [NumbersOk] at h
    exact .num (.inl ⟨h.1, h.2.1⟩)
  | str s =>
    obtain ⟨t, ht, hs⟩ := spellsText_dumpsText s rest
    rw [print, ht]
    exact .str hs
  | arr items =>
    rw [NumbersOk] at h
    exact .arr (spellsItems_print true h rest)
  | obj fields =>
    rw [NumbersOk] at h
    exact .obj (spellsFields_print true h rest) (List.Subperm.refl _)

theorem spellsItems_print {items : List Json} (first : Bool) (h : NumbersOkItems items) (rest : Text) :
    SpellsItems first (printItems first items ++ rest) items rest := by
  cases items with
  | nil =>
    rw [printItems]
    exact .close ⟨[], by rintro b ⟨⟩, rfl⟩
  | cons item items =>
    rw [NumbersOkItems] at h
    obtain ⟨y, hsep, hy⟩ := separated_print first (print item ++ (printItems false items ++ rest))
    have hitem := spells_print h.1 (printItems false items ++ rest)
    have hblank : Spells y item (printItems false items ++ rest) := by
      rcases hy with rfl | rfl
      · exact hitem
      · exact .blank (by decide) hitem
    rw [printItems, List.append_assoc, List.append_assoc]
    exact .item hsep hblank (spellsItems_print false h.2 rest)

theorem spellsFields_print {fields : List (Text × Json)} (first : Bool) (h : NumbersOkFields fields) (rest : Text) :
    SpellsFields first (printFields first fields ++ rest) fields rest := by
  cases fields with
  | nil =>
    rw [printFields]
    exact .close ⟨[], by rintro b ⟨⟩, rfl⟩
  | cons e fields =>
    obtain ⟨key, value⟩ := e
    rw [NumbersOkFields] at h
    have hvalue := spells_print h.1 (printFields false fields ++ rest)
    obtain ⟨t, ht, hkey⟩ := spellsText_dumpsText key
      (": ".toList ++ (print value ++ (printFields false fields ++ rest)))
    obtain ⟨y, hsep, hy⟩ := separated_print first ('"' :: t)
    have hquote : Skips y '"' t := by
      rcases hy with rfl | rfl
      · exact ⟨[], by rintro b ⟨⟩, rfl⟩
      · refine ⟨[' '], fun b hb ↦ ?_, rfl⟩
        rw [List.mem_singleton.1 hb]
        decide
    rw [printFields, List.append_assoc, List.append_assoc, List.append_assoc, List.append_assoc, ht]
    refine .entry hsep hquote hkey ⟨[], ?_, rfl⟩ (.blank (by decide) hvalue) (spellsFields_print false h.2 rest)
    rintro b ⟨⟩

end

end JsonText
