import Sentrik.Library.JsonText

/-!
# Reading documents

A printed document as a reader of the format takes it: blanks are skipped between tokens, texts are read
character by character with their escapes, numbers as the run of characters that belong to one, and
nothing may follow the document. `print` is the default printing of `json.dumps`, with a blank after each
separator, and a document that it prints is read back (`loads_print`).
-/

namespace JsonText

/-! ### Printing with blanks -/

mutual

/-- `json.dumps(value)` -/
def print : Json → Text
  | .null => "null".toList
  | .bool b => dumpsBool b
  | .num rendering _ => rendering
  | .str t => dumpsText t
  | .arr items => '[' :: printItems true items
  | .obj fields => '\x7b' :: printFields true fields

/-- The items of a list, a separator in front of each but the first, and the closing bracket. -/
def printItems : Bool → List Json → Text
  | _, [] => [']']
  | first, item :: rest => (if first then [] else ", ".toList) ++ print item ++ printItems false rest

def printFields : Bool → List (Text × Json) → Text
  | _, [] => ['\x7d']
  | first, (key, value) :: rest =>
    (if first then [] else ", ".toList) ++ dumpsText key ++ ": ".toList ++ print value ++
      printFields false rest

end

/-! ### Reading -/

def isBlank (c : Char) : Bool := c == ' ' || c == '\n' || c == '\r' || c == '\t'

def skip (t : Text) : Text := t.dropWhile isBlank

/-- The characters that numbers are written with. -/
def isNumberChar (c : Char) : Bool := c.isDigit || c == '-' || c == '+' || c == '.' || c == 'e' || c == 'E'

/-- No digit of the number, exponent apart, is other than zero. -/
def isZero (rendering : Text) : Bool :=
  (rendering.takeWhile fun c ↦ c != 'e' && c != 'E').all fun c ↦ !c.isDigit || c == '0'

/-- A number. -/
def readNumber (t : Text) : Option (Json × Text) :=
  let rendering := t.takeWhile isNumberChar
  if rendering = [] then none
  else some (.num rendering (isZero rendering), t.dropWhile isNumberChar)

/-- The rest of a text, up to its closing quotation mark; control characters are not allowed. -/
def readText : ℕ → Text → Option (Text × Text)
  | 0, _ => none
  | _, [] => none
  | n + 1, c :: x =>
    if c = '"' then some ([], x)
    else if c.toNat < 32 then none
    else
      match read (c :: x) with
      | none => none
      | some (d, rest) => (readText n rest).map fun r ↦ (d :: r.1, r.2)

/-- A given word. -/
def readWord (word : Text) (value : Json) (t : Text) : Option (Json × Text) :=
  if Text.startswith t word then some (value, t.drop word.length) else none

mutual

/-- A value. -/
def readValue : ℕ → Text → Option (Json × Text)
  | 0, _ => none
  | n + 1, t =>
    match skip t with
    | [] => none
    | c :: x =>
      if c = '"' then (readText (x.length + 1) x).map fun r ↦ (.str r.1, r.2)
      else if c = '[' then
        match skip x with
        | ']' :: rest => some (.arr [], rest)
        | _ => (readItems n x).map fun r ↦ (.arr r.1, r.2)
      else if c = '\x7b' then
        match skip x with
        | '\x7d' :: rest => some (.obj [], rest)
        | _ => (readFields n x).map fun r ↦ (.obj r.1, r.2)
      else if c = 'n' then readWord "null".toList .null (c :: x)
      else if c = 't' then readWord "true".toList (.bool true) (c :: x)
      else if c = 'f' then readWord "false".toList (.bool false) (c :: x)
      else readNumber (c :: x)

/-- The items of a list, up to its closing bracket. -/
def readItems : ℕ → Text → Option (List Json × Text)
  | 0, _ => none
  | n + 1, t =>
    match readValue n t with
    | none => none
    | some (value, x) =>
      match skip x with
      | ',' :: rest => (readItems n rest).map fun r ↦ (value :: r.1, r.2)
      | ']' :: rest => some ([value], rest)
      | _ => none

/-- The entries of a dictionary, up to its closing brace. -/
def readFields : ℕ → Text → Option (List (Text × Json) × Text)
  | 0, _ => none
  | n + 1, t =>
    match skip t with
    | [] => none
    | c :: x =>
      if c ≠ '"' then none
      else
        match readText (x.length + 1) x with
        | none => none
        | some (key, y) =>
          match skip y with
          | ':' :: z =>
            match readValue n z with
            | none => none
            | some (value, x) =>
              match skip x with
              | ',' :: rest => (readFields n rest).map fun r ↦ ((key, value) :: r.1, r.2)
              | '\x7d' :: rest => some ([(key, value)], rest)
              | _ => none
          | _ => none

end

/-- `json.loads(text)` -/
def loads (t : Text) : Option Json :=
  match readValue (t.length + 1) t with
  | some (value, rest) => if skip rest = [] then some value else none
  | none => none

/-! ### Texts are read back -/

/-- A printed character does not begin like a quotation mark or a control character. -/
theorem escape_head (c : Char) : ∃ d x, escape c = d :: x ∧ d ≠ '"' ∧ ¬d.toNat < 32 := by
  have hback : ('\\' : Char) ≠ '"' ∧ ¬('\\' : Char).toNat < 32 := by decide
  unfold escape
  split
  · exact ⟨_, _, rfl, hback⟩
  · next hquote =>
    split
    · exact ⟨_, _, rfl, hback⟩
    split
    · exact ⟨_, _, rfl, hback⟩
    split
    · exact ⟨_, _, rfl, hback⟩
    split
    · exact ⟨_, _, rfl, hback⟩
    split
    · exact ⟨_, _, rfl, hback⟩
    split
    · exact ⟨_, _, rfl, hback⟩
    split
    · next hprint => exact ⟨c, [], rfl, hquote, by omega⟩
    split
    · exact ⟨_, _, rfl, hback⟩
    · exact ⟨_, _, rfl, hback⟩

theorem readText_flatMap (t rest : Text) {n : ℕ} (hn : t.length < n) :
    readText n (t.flatMap escape ++ '"' :: rest) = some (t, rest) := by
  induction t generalizing n with
  | nil =>
    obtain ⟨m, rfl⟩ := Nat.exists_eq_add_of_lt hn
    rfl
  | cons c t ih =>
    obtain ⟨m, rfl⟩ := Nat.exists_eq_add_of_lt hn
    obtain ⟨d, x, hd, hquote, hcontrol⟩ := escape_head c
    have hread := read_escape c (t.flatMap escape ++ '"' :: rest)
    rw [List.flatMap_cons, List.append_assoc]
    rw [hd, List.cons_append] at hread ⊢
    rw [readText, if_neg hquote, if_neg hcontrol, hread]
    dsimp only
    rw [ih (by rw [List.length_cons]; omega)]
    rfl

/-- A printed text is at least as long as it, with two quotation marks. -/
theorem length_flatMap_escape (t : Text) : t.length ≤ (t.flatMap escape).length := by
  induction t with
  | nil => exact Nat.zero_le _
  | cons c t ih =>
    obtain ⟨d, x, hd, -⟩ := escape_head c
    rw [List.flatMap_cons, hd, List.length_append, List.length_cons, List.length_cons]
    omega

/-- What follows the opening quotation mark of a printed text. -/
theorem readText_dumpsText (t rest : Text) :
    readText ((t.flatMap escape ++ '"' :: rest).length + 1) (t.flatMap escape ++ '"' :: rest) =
      some (t, rest) := by
  refine readText_flatMap t rest ?_
  have hle := length_flatMap_escape t
  rw [List.length_append]
  omega

theorem dumpsText_append (t rest : Text) :
    dumpsText t ++ rest = '"' :: (t.flatMap escape ++ '"' :: rest) := by
  rw [dumpsText, List.cons_append, List.append_assoc]
  rfl

/-! ### Documents are read back -/

mutual

/-- Every number is written with the characters of numbers, and known to be zero when it is. -/
def NumbersOk : Json → Prop
  | .num rendering zero =>
    rendering ≠ [] ∧ (∀ c ∈ rendering, isNumberChar c = true) ∧ zero = isZero rendering
  | .arr items => NumbersOkItems items
  | .obj fields => NumbersOkFields fields
  | _ => True

def NumbersOkItems : List Json → Prop
  | [] => True
  | item :: rest => NumbersOk item ∧ NumbersOkItems rest

def NumbersOkFields : List (Text × Json) → Prop
  | [] => True
  | (_, value) :: rest => NumbersOk value ∧ NumbersOkFields rest

end

mutual

/-- How deep reading the printed document goes, at most. -/
def weight : Json → ℕ
  | .arr items => 1 + weightItems items
  | .obj fields => 1 + weightFields fields
  | _ => 1

def weightItems : List Json → ℕ
  | [] => 0
  | item :: rest => 1 + weight item + weightItems rest

def weightFields : List (Text × Json) → ℕ
  | [] => 0
  | (_, value) :: rest => 1 + weight value + weightFields rest

end

theorem weight_pos (j : Json) : 0 < weight j := by
  cases j <;> simp only [weight] <;> omega

/-- No number goes on there. -/
def EndsNumber (rest : Text) : Prop := ∀ c x, rest = c :: x → isNumberChar c = false

theorem endsNumber_cons {c : Char} (h : isNumberChar c = false) (x : Text) : EndsNumber (c :: x) := by
  intro d y heq
  rw [← (List.cons.inj heq).1]
  exact h

theorem skip_cons {c : Char} (h : isBlank c = false) (x : Text) : skip (c :: x) = c :: x := by
  rw [skip, List.dropWhile_cons, h]
  rfl

/-- The characters that a number is not mistaken for. -/
theorem isNumberChar_ne {c d : Char} (hc : isNumberChar c = true) (hd : isNumberChar d = false) :
    c ≠ d := by
  rintro rfl
  rw [hc] at hd
  cases hd

theorem isBlank_of_isNumberChar {c : Char} (h : isNumberChar c = true) : isBlank c = false := by
  have hspace := isNumberChar_ne h (d := ' ') (by decide)
  have hlf := isNumberChar_ne h (d := '\n') (by decide)
  have hcr := isNumberChar_ne h (d := '\r') (by decide)
  have htab := isNumberChar_ne h (d := '\t') (by decide)
  simp [isBlank, hspace, hlf, hcr, htab]

/-- A printed document begins with no blank, and does not close a list. -/
theorem print_head {j : Json} (h : NumbersOk j) :
    ∃ c x, print j = c :: x ∧ isBlank c = false ∧ c ≠ ']' := by
  cases j with
  | null => exact ⟨'n', "ull".toList, by rw [print]; rfl, by decide, by decide⟩
  | bool b =>
    cases b with
    | true => exact ⟨'t', "rue".toList, by rw [print]; rfl, by decide, by decide⟩
    | false => exact ⟨'f', "alse".toList, by rw [print]; rfl, by decide, by decide⟩
  | num rendering zero =>
    rw [NumbersOk] at h
    obtain ⟨c, x, rfl⟩ := List.exists_cons_of_ne_nil h.1
    have hc := h.2.1 c List.mem_cons_self
    exact ⟨c, x, by rw [print], isBlank_of_isNumberChar hc, isNumberChar_ne hc (by decide)⟩
  | str t => exact ⟨'"', _, by rw [print, dumpsText], by decide, by decide⟩
  | arr items => exact ⟨'[', _, by rw [print], by decide, by decide⟩
  | obj fields => exact ⟨'\x7b', _, by rw [print], by decide, by decide⟩

theorem readValue_blank (n : ℕ) (t : Text) : readValue n (' ' :: t) = readValue n t := by
  cases n with
  | zero => rw [readValue, readValue]
  | succ n =>
    have hskip : skip (' ' :: t) = skip t := rfl
    rw [readValue, readValue, hskip]

theorem readItems_blank (n : ℕ) (t : Text) : readItems n (' ' :: t) = readItems n t := by
  cases n with
  | zero => rw [readItems, readItems]
  | succ n => rw [readItems, readItems, readValue_blank]

theorem readFields_blank (n : ℕ) (t : Text) : readFields n (' ' :: t) = readFields n t := by
  cases n with
  | zero => rw [readFields, readFields]
  | succ n =>
    have hskip : skip (' ' :: t) = skip t := rfl
    rw [readFields, readFields, hskip]

theorem readNumber_append {rendering : Text} (hne : rendering ≠ [])
    (h : ∀ c ∈ rendering, isNumberChar c = true) {rest : Text} (hrest : EndsNumber rest) :
    readNumber (rendering ++ rest) = some (.num rendering (isZero rendering), rest) := by
  have hstop : rest.takeWhile isNumberChar = [] ∧ rest.dropWhile isNumberChar = rest := by
    cases rest with
    | nil => exact ⟨rfl, rfl⟩
    | cons c x =>
      have hc := hrest c x rfl
      rw [List.takeWhile_cons, List.dropWhile_cons, hc]
      exact ⟨rfl, rfl⟩
  have htake : (rendering ++ rest).takeWhile isNumberChar = rendering := by
    rw [List.takeWhile_append_of_pos h, hstop.1, List.append_nil]
  have hdrop : (rendering ++ rest).dropWhile isNumberChar = rest := by
    rw [List.dropWhile_append_of_pos h, hstop.2]
  rw [readNumber, htake, hdrop, if_neg hne]

/-- One value: whatever its items and entries are read back with, it is read back with one more. -/
theorem readValue_print {n : ℕ} {j : Json} {rest : Text} (hj : NumbersOk j) (hrest : EndsNumber rest)
    (hitems : ∀ item items, j = .arr (item :: items) → readItems n (print item ++
      (printItems false items ++ rest)) = some (item :: items, rest))
    (hfields : ∀ key value fields, j = .obj ((key, value) :: fields) → readFields n (dumpsText key ++
      (": ".toList ++ (print value ++ (printFields false fields ++ rest)))) =
        some ((key, value) :: fields, rest)) :
    readValue (n + 1) (print j ++ rest) = some (j, rest) := by
  cases j with
  | null => rw [print, readValue]; rfl
  | bool b => cases b <;> (rw [print, readValue]; rfl)
  | num rendering zero =>
    rw [NumbersOk] at hj
    obtain ⟨hne, hchars, rfl⟩ := hj
    have hread := readNumber_append hne hchars hrest
    obtain ⟨c, x, rfl⟩ := List.exists_cons_of_ne_nil hne
    have hc := hchars c List.mem_cons_self
    rw [print, readValue, List.cons_append, skip_cons (isBlank_of_isNumberChar hc)]
    dsimp only
    rw [if_neg (isNumberChar_ne hc (by decide)), if_neg (isNumberChar_ne hc (by decide)),
      if_neg (isNumberChar_ne hc (by decide)), if_neg (isNumberChar_ne hc (by decide)),
      if_neg (isNumberChar_ne hc (by decide)), if_neg (isNumberChar_ne hc (by decide))]
    exact hread
  | str t =>
    rw [print, dumpsText_append, readValue, skip_cons (by decide)]
    dsimp only
    rw [if_pos rfl, readText_dumpsText]
    rfl
  | arr items =>
    rw [print, List.cons_append, readValue, skip_cons (by decide)]
    dsimp only
    rw [if_neg (by decide), if_pos rfl]
    cases items with
    | nil =>
      rw [printItems]
      rfl
    | cons item items =>
      have hitem : NumbersOk item := by
        rw [NumbersOk, NumbersOkItems] at hj
        exact hj.1
      obtain ⟨c, x, hc, hblank, hclose⟩ := print_head hitem
      have hread := hitems item items rfl
      rw [printItems, if_pos rfl, List.nil_append, List.append_assoc, hread]
      rw [hc, List.cons_append, skip_cons hblank]
      split
      · next heq => exact absurd (List.cons.inj heq).1 hclose
      · rfl
  | obj fields =>
    rw [print, List.cons_append, readValue, skip_cons (by decide)]
    dsimp only
    rw [if_neg (by decide), if_neg (by decide), if_pos rfl]
    cases fields with
    | nil =>
      rw [printFields]
      rfl
    | cons e fields =>
      obtain ⟨key, value⟩ := e
      have hread := hfields key value fields rfl
      rw [printFields, if_pos rfl, List.nil_append, List.append_assoc, List.append_assoc,
        List.append_assoc, hread, dumpsText_append, skip_cons (by decide)]
      rfl

/-- A separator or a closing bracket ends a number. -/
theorem endsNumber_printItems (items : List Json) (rest : Text) :
    EndsNumber (printItems false items ++ rest) := by
  cases items with
  | nil =>
    rw [printItems]
    exact endsNumber_cons (by decide) _
  | cons item items =>
    rw [printItems]
    exact endsNumber_cons (c := ',') (by decide) _

theorem endsNumber_printFields (fields : List (Text × Json)) (rest : Text) :
    EndsNumber (printFields false fields ++ rest) := by
  cases fields with
  | nil =>
    rw [printFields]
    exact endsNumber_cons (by decide) _
  | cons e fields =>
    obtain ⟨key, value⟩ := e
    rw [printFields]
    exact endsNumber_cons (c := ',') (by decide) _

/-- What is printed is read back, whatever follows it. -/
theorem read_print (n : ℕ) :
    (∀ j rest, weight j ≤ n → NumbersOk j → EndsNumber rest →
      readValue n (print j ++ rest) = some (j, rest)) ∧
    (∀ item items rest, weightItems (item :: items) ≤ n → NumbersOkItems (item :: items) →
      readItems n (print item ++ (printItems false items ++ rest)) = some (item :: items, rest)) ∧
    (∀ key value fields rest, weightFields ((key, value) :: fields) ≤ n →
      NumbersOkFields ((key, value) :: fields) →
        readFields n (dumpsText key ++ (": ".toList ++ (print value ++
          (printFields false fields ++ rest)))) = some ((key, value) :: fields, rest)) := by
  induction n with
  | zero =>
    refine ⟨?_, ?_, ?_⟩
    · intro j rest hw
      have hpos := weight_pos j
      omega
    · intro item items rest hw
      rw [weightItems] at hw
      omega
    · intro key value fields rest hw
      rw [weightFields] at hw
      omega
  | succ n ih =>
    obtain ⟨ihvalue, ihitems, ihfields⟩ := ih
    refine ⟨?_, ?_, ?_⟩
    · intro j rest hw hj hrest
      refine readValue_print hj hrest ?_ ?_
      · rintro item items rfl
        rw [weight] at hw
        rw [NumbersOk] at hj
        exact ihitems item items rest (by omega) hj
      · rintro key value fields rfl
        rw [weight] at hw
        rw [NumbersOk] at hj
        exact ihfields key value fields rest (by omega) hj
    · intro item items rest hw hok
      rw [weightItems] at hw
      rw [NumbersOkItems] at hok
      rw [readItems, ihvalue item _ (by omega) hok.1 (endsNumber_printItems items rest)]
      cases items with
      | nil =>
        rw [printItems]
        rfl
      | cons next items =>
        have hread := ihitems next items rest (by omega) hok.2
        rw [← readItems_blank] at hread
        rw [printItems, if_neg (by decide), List.append_assoc, List.append_assoc]
        show (readItems n (' ' :: (print next ++ (printItems false items ++ rest)))).map _ = _
        rw [hread]
        rfl
    · intro key value fields rest hw hok
      rw [weightFields] at hw
      rw [NumbersOkFields] at hok
      have hvalue := ihvalue value _ (by omega) hok.1 (endsNumber_printFields fields rest)
      rw [← readValue_blank] at hvalue
      rw [dumpsText_append, readFields, skip_cons (by decide)]
      dsimp only
      rw [if_neg (not_not.2 rfl), readText_dumpsText]
      show (match readValue n (' ' :: (print value ++ (printFields false fields ++ rest))) with
        | none => none
        | some (value, x) => match skip x with
          | ',' :: rest => (readFields n rest).map fun r : List (Text × Json) × Text ↦
            ((key, value) :: r.1, r.2)
          | '\x7d' :: rest => some ([(key, value)], rest)
          | _ => none) = _
      rw [hvalue]
      cases fields with
      | nil =>
        rw [printFields]
        rfl
      | cons e fields =>
        obtain ⟨key', value'⟩ := e
        have hread := ihfields key' value' fields rest (by omega) hok.2
        rw [← readFields_blank] at hread
        rw [printFields, if_neg (by decide)]
        simp only [List.append_assoc]
        show (readFields n (' ' :: (dumpsText key' ++ (": ".toList ++ (print value' ++
          (printFields false fields ++ rest)))))).map _ = _
        rw [hread]
        rfl

/-- Reading goes no deeper than the printed text is long. -/
theorem weight_le_length (n : ℕ) :
    (∀ j, weight j ≤ n → NumbersOk j → weight j ≤ (print j).length) ∧
    (∀ first items, weightItems items ≤ n → NumbersOkItems items →
      weightItems items + (if first then 0 else 1) ≤ (printItems first items).length) ∧
    (∀ first fields, weightFields fields ≤ n → NumbersOkFields fields →
      weightFields fields + (if first then 0 else 1) ≤ (printFields first fields).length) := by
  induction n with
  | zero =>
    refine ⟨?_, ?_, ?_⟩
    · intro j hw
      have hpos := weight_pos j
      omega
    · intro first items hw _
      cases items with
      | nil => cases first <;> (rw [printItems, weightItems]; decide)
      | cons item items =>
        rw [weightItems] at hw
        omega
    · intro first fields hw _
      cases fields with
      | nil => cases first <;> (rw [printFields, weightFields]; decide)
      | cons e fields =>
        obtain ⟨key, value⟩ := e
        rw [weightFields] at hw
        omega
  | succ n ih =>
    obtain ⟨ihvalue, ihitems, ihfields⟩ := ih
    refine ⟨?_, ?_, ?_⟩
    · intro j hw hj
      cases j with
      | arr items =>
        rw [weight] at hw ⊢
        rw [NumbersOk] at hj
        have hle := ihitems true items (by omega) hj
        rw [if_pos rfl] at hle
        rw [print, List.length_cons]
        omega
      | obj fields =>
        rw [weight] at hw ⊢
        rw [NumbersOk] at hj
        have hle := ihfields true fields (by omega) hj
        rw [if_pos rfl] at hle
        rw [print, List.length_cons]
        omega
      | null => rw [print]; simp [weight]
      | bool b => rw [print]; cases b <;> (simp [weight]; decide)
      | str t =>
        rw [print, dumpsText]
        simp [weight]
      | num rendering zero =>
        rw [NumbersOk] at hj
        have hpos := List.length_pos_iff.2 hj.1
        rw [print]
        simp only [weight]
        omega
    · intro first items hw hok
      cases items with
      | nil => cases first <;> (rw [printItems, weightItems]; decide)
      | cons item items =>
        rw [weightItems] at hw ⊢
        rw [NumbersOkItems] at hok
        have hitem := ihvalue item (by omega) hok.1
        have hrest := ihitems false items (by omega) hok.2
        rw [if_neg (by decide)] at hrest
        rw [printItems, List.length_append, List.length_append]
        cases first with
        | true => simp only [if_true]; omega
        | false =>
          rw [if_neg (by decide), if_neg (by decide)]
          show _ ≤ 2 + _ + _
          omega
    · intro first fields hw hok
      cases fields with
      | nil => cases first <;> (rw [printFields, weightFields]; decide)
      | cons e fields =>
        obtain ⟨key, value⟩ := e
        rw [weightFields] at hw ⊢
        rw [NumbersOkFields] at hok
        have hvalue := ihvalue value (by omega) hok.1
        have hrest := ihfields false fields (by omega) hok.2
        rw [if_neg (by decide)] at hrest
        rw [printFields, List.length_append, List.length_append, List.length_append,
          List.length_append]
        cases first with
        | true => simp only [if_true]; omega
        | false =>
          rw [if_neg (by decide), if_neg (by decide)]
          show _ ≤ 2 + _ + _ + _ + _
          omega

/-- A printed document is read back. -/
theorem loads_print {j : Json} (h : NumbersOk j) : loads (print j) = some j := by
  have hweight := (weight_le_length (weight j)).1 j le_rfl h
  have hread := (read_print ((print j).length + 1)).1 j [] (by omega) h
    fun c x heq ↦ absurd heq.symm (List.cons_ne_nil c x)
  rw [List.append_nil] at hread
  rw [loads, hread]
  rfl

/-! ### What is printed is ASCII -/

/-- A printable ASCII character. -/
def Printable (c : Char) : Prop := 32 ≤ c.toNat ∧ c.toNat ≤ 126

instance : DecidablePred Printable := fun c ↦
  inferInstanceAs (Decidable (32 ≤ c.toNat ∧ c.toNat ≤ 126))

theorem printable_of_all {l : Text} (h : l.all (fun c ↦ Printable c) = true) :
    ∀ d ∈ l, Printable d :=
  fun d hd ↦ of_decide_eq_true (List.all_eq_true.1 h d hd)

theorem printable_hexDigit (n : ℕ) : Printable (Text.hexDigit (n % 16)) := by
  have hall : ∀ m : Fin 16, Printable (Text.hexDigit m) := by decide
  exact hall ⟨n % 16, Nat.mod_lt n (by decide)⟩

theorem printable_escapeUnit {n : ℕ} {d : Char} (h : d ∈ escapeUnit n) : Printable d := by
  simp only [escapeUnit, List.mem_cons, List.not_mem_nil, or_false] at h
  rcases h with rfl | rfl | rfl | rfl | rfl | rfl
  · exact ⟨by decide, by decide⟩
  · exact ⟨by decide, by decide⟩
  · exact printable_hexDigit _
  · exact printable_hexDigit _
  · exact printable_hexDigit _
  · exact printable_hexDigit _

theorem printable_escape {c d : Char} (h : d ∈ escape c) : Printable d := by
  unfold escape at h
  split at h
  · exact printable_of_all (by decide) d h
  split at h
  · exact printable_of_all (by decide) d h
  split at h
  · exact printable_of_all (by decide) d h
  split at h
  · exact printable_of_all (by decide) d h
  split at h
  · exact printable_of_all (by decide) d h
  split at h
  · exact printable_of_all (by decide) d h
  split at h
  · exact printable_of_all (by decide) d h
  split at h
  · next hprint =>
    rw [List.mem_singleton.1 h]
    exact hprint
  split at h
  · exact printable_escapeUnit h
  · rcases List.mem_append.1 h with h | h
    · exact printable_escapeUnit h
    · exact printable_escapeUnit h

theorem printable_dumpsText {t : Text} {d : Char} (h : d ∈ dumpsText t) : Printable d := by
  have hquote : Printable '"' := ⟨by decide, by decide⟩
  rw [dumpsText] at h
  rcases List.mem_cons.1 h with rfl | h
  · exact hquote
  · rcases List.mem_append.1 h with h | h
    · obtain ⟨c, -, hd⟩ := List.mem_flatMap.1 h
      exact printable_escape hd
    · rw [List.mem_singleton.1 h]
      exact hquote

theorem printable_of_isNumberChar {c : Char} (h : isNumberChar c = true) : Printable c := by
  simp only [isNumberChar, Char.isDigit, Bool.or_eq_true, Bool.and_eq_true, decide_eq_true_eq,
    beq_iff_eq, ge_iff_le] at h
  rcases h with ((((⟨hlo, hhi⟩ | rfl) | rfl) | rfl) | rfl) | rfl
  · have hlo' : 48 ≤ c.toNat := UInt32.le_iff_toNat_le.1 hlo
    have hhi' : c.toNat ≤ 57 := UInt32.le_iff_toNat_le.1 hhi
    exact ⟨by omega, by omega⟩
  all_goals exact ⟨by decide, by decide⟩

/-- What is printed has no other character. -/
theorem printable_print (n : ℕ) :
    (∀ j, weight j ≤ n → NumbersOk j → ∀ d ∈ print j, Printable d) ∧
    (∀ first items, weightItems items ≤ n → NumbersOkItems items →
      ∀ d ∈ printItems first items, Printable d) ∧
    (∀ first fields, weightFields fields ≤ n → NumbersOkFields fields →
      ∀ d ∈ printFields first fields, Printable d) := by
  have hsep : ∀ first : Bool, ∀ d ∈ (if first then [] else ", ".toList), Printable d := by
    intro first
    cases first with
    | true => exact fun d hd ↦ absurd hd List.not_mem_nil
    | false => exact printable_of_all (l := ", ".toList) (by decide)
  induction n with
  | zero =>
    refine ⟨?_, ?_, ?_⟩
    · intro j hw
      have hpos := weight_pos j
      omega
    · intro first items hw _
      cases items with
      | nil =>
        rw [printItems]
        exact printable_of_all (l := [']']) (by decide)
      | cons item items =>
        rw [weightItems] at hw
        omega
    · intro first fields hw _
      cases fields with
      | nil =>
        rw [printFields]
        exact printable_of_all (l := ['\x7d']) (by decide)
      | cons e fields =>
        obtain ⟨key, value⟩ := e
        rw [weightFields] at hw
        omega
  | succ n ih =>
    obtain ⟨ihvalue, ihitems, ihfields⟩ := ih
    refine ⟨?_, ?_, ?_⟩
    · intro j hw hj
      cases j with
      | null =>
        rw [print]
        exact printable_of_all (l := "null".toList) (by decide)
      | bool b =>
        rw [print]
        cases b with
        | true => exact printable_of_all (l := "true".toList) (by decide)
        | false => exact printable_of_all (l := "false".toList) (by decide)
      | num rendering zero =>
        rw [NumbersOk] at hj
        rw [print]
        exact fun d hd ↦ printable_of_isNumberChar (hj.2.1 d hd)
      | str t =>
        rw [print]
        exact fun d hd ↦ printable_dumpsText hd
      | arr items =>
        rw [weight] at hw
        rw [NumbersOk] at hj
        rw [print]
        intro d hd
        rcases List.mem_cons.1 hd with rfl | hd
        · exact ⟨by decide, by decide⟩
        · exact ihitems true items (by omega) hj d hd
      | obj fields =>
        rw [weight] at hw
        rw [NumbersOk] at hj
        rw [print]
        intro d hd
        rcases List.mem_cons.1 hd with rfl | hd
        · exact ⟨by decide, by decide⟩
        · exact ihfields true fields (by omega) hj d hd
    · intro first items hw hok
      cases items with
      | nil =>
        rw [printItems]
        exact printable_of_all (l := [']']) (by decide)
      | cons item items =>
        rw [weightItems] at hw
        rw [NumbersOkItems] at hok
        rw [printItems]
        intro d hd
        rcases List.mem_append.1 hd with hd | hd
        · rcases List.mem_append.1 hd with hd | hd
          · exact hsep first d hd
          · exact ihvalue item (by omega) hok.1 d hd
        · exact ihitems false items (by omega) hok.2 d hd
    · intro first fields hw hok
      cases fields with
      | nil =>
        rw [printFields]
        exact printable_of_all (l := ['\x7d']) (by decide)
      | cons e fields =>
        obtain ⟨key, value⟩ := e
        rw [weightFields] at hw
        rw [NumbersOkFields] at hok
        rw [printFields]
        intro d hd
        rcases List.mem_append.1 hd with hd | hd
        · rcases List.mem_append.1 hd with hd | hd
          · rcases List.mem_append.1 hd with hd | hd
            · rcases List.mem_append.1 hd with hd | hd
              · exact hsep first d hd
              · exact printable_dumpsText hd
            · exact printable_of_all (l := ": ".toList) (by decide) d hd
          · exact ihvalue value (by omega) hok.1 d hd
        · exact ihfields false fields (by omega) hok.2 d hd

/-- A printed document is one line. -/
theorem lf_notMem_print {j : Json} (h : NumbersOk j) : '\n' ∉ print j := by
  intro hmem
  have hprintable := (printable_print (weight j)).1 j le_rfl h '\n' hmem
  exact absurd hprintable.1 (by decide)

end JsonText
