import Sentrik.Services.Siem

/-!
# Reading the events back

An ECS payload is read back for all events: what JSON prints is ASCII without line feeds, and documents are
read as they were printed.

A CEF payload is read back exactly for the events without line feeds in their line, whose class has no bar and
no backslash, whose title has backslashes only in front of equals signs, and whose other fields have no equals
signs and no backslashes (`events_readable_iff`): `to_cef` escapes bars and equals signs of the title and nothing
else. So an event whose URL has a query is not read back.
-/

namespace Siem

open Escaping

/-! ### Lines -/

/-- A line feed behind every line. -/
theorem payloadOf_eq (ls : List Text) : payloadOf ls = ls.flatMap (· ++ ['\n']) := by
  cases ls with
  | nil => rfl
  | cons a l =>
    have hshift : ∀ (a : Text) (l : List Text),
        a ++ l.flatMap (['\n'] ++ ·) ++ ['\n'] = (a :: l).flatMap (· ++ ['\n']) := by
      intro a l
      induction l generalizing a with
      | nil => rw [List.flatMap_nil, List.append_nil, List.flatMap_singleton]
      | cons b l ih =>
        rw [List.flatMap_cons, List.flatMap_cons, ← ih b]
        simp only [List.append_assoc]
    have hsep : "\n".toList = ['\n'] := by decide
    rw [payloadOf, if_neg (List.cons_ne_nil a l), Text.intercalate_cons, hsep, hshift]

/-- Lines without line feeds are found again. -/
theorem split_flatMap {ls : List Text} (h : ∀ l ∈ ls, '\n' ∉ l) :
    Text.split '\n' (ls.flatMap (· ++ ['\n'])) = ls ++ [[]] := by
  induction ls with
  | nil => rfl
  | cons a l ih =>
    have hrest := ih fun b hb ↦ h b (List.mem_cons_of_mem a hb)
    have hsplit := Text.split_append (h a List.mem_cons_self)
      (Text.split_cons_self '\n' (l.flatMap (· ++ ['\n'])))
    rw [List.append_nil, hrest] at hsplit
    rw [List.flatMap_cons, List.append_assoc]
    exact hsplit

theorem lines_payloadOf {ls : List Text} (h : ∀ l ∈ ls, '\n' ∉ l) : lines (payloadOf ls) = ls := by
  rw [payloadOf_eq, lines, split_flatMap h, if_pos List.getLast?_concat, List.dropLast_concat]

theorem length_split (c : Char) (t : Text) : (Text.split c t).length = t.count c + 1 := by
  induction t with
  | nil => rfl
  | cons x t ih =>
    rcases eq_or_ne x c with rfl | hx
    · rw [Text.split_cons_self, List.length_cons, ih, List.count_cons_self]
    · obtain ⟨part, rest, hsplit⟩ := List.exists_cons_of_ne_nil (Text.split_ne_nil c t)
      rw [hsplit] at ih
      rw [Text.split_cons_of_ne hx hsplit, List.count_cons_of_ne hx, ← ih]
      rfl

/-- There are as many lines as line feeds. -/
theorem length_lines_payloadOf (ls : List Text) :
    (lines (payloadOf ls)).length = (ls.map fun l ↦ l.count '\n' + 1).sum := by
  have hcount : (ls.flatMap (· ++ ['\n'])).count '\n' = (ls.map fun l ↦ l.count '\n' + 1).sum := by
    rw [List.count_flatMap]
    refine congrArg List.sum (List.map_congr_left fun l _ ↦ ?_)
    show (l ++ ['\n']).count '\n' = l.count '\n' + 1
    rw [List.count_append]
    rfl
  -- the payload is empty or ends with a line feed
  have hlast : (Text.split '\n' (ls.flatMap (· ++ ['\n']))).getLast? = some [] := by
    cases hrev : ls.getLast? with
    | none =>
      obtain rfl := List.getLast?_eq_none_iff.1 hrev
      rfl
    | some l =>
      obtain ⟨before, rfl⟩ := List.getLast?_eq_some_iff.1 hrev
      have hend : ∀ t : Text, (Text.split '\n' (t ++ ['\n'])).getLast? = some [] := by
        intro t
        induction t with
        | nil => rfl
        | cons x t ih =>
          obtain ⟨part, rest, hsplit⟩ := List.exists_cons_of_ne_nil (Text.split_ne_nil '\n' (t ++ ['\n']))
          rcases eq_or_ne x '\n' with rfl | hx
          · rw [List.cons_append, Text.split_cons_self, hsplit, List.getLast?_cons_cons, ← hsplit, ih]
          · rw [List.cons_append, Text.split_cons_of_ne hx hsplit]
            rw [hsplit] at ih
            cases rest with
            | nil =>
              -- two parts at least, as there is a line feed
              have hlen := length_split '\n' (t ++ ['\n'])
              rw [hsplit, List.count_append] at hlen
              exact absurd hlen (by
                show ¬(1 = t.count '\n' + 1 + 1)
                omega)
            | cons r rest =>
              rw [List.getLast?_cons_cons] at ih ⊢
              exact ih
      rw [List.flatMap_append, List.flatMap_singleton, ← List.append_assoc]
      exact hend _
  rw [payloadOf_eq, lines, if_pos hlast, List.length_dropLast, length_split, hcount, Nat.add_sub_cancel]

/-- There is one line per text exactly when none has a line feed. -/
theorem length_lines_eq_iff (ls : List Text) :
    (lines (payloadOf ls)).length = ls.length ↔ ∀ l ∈ ls, '\n' ∉ l := by
  rw [length_lines_payloadOf]
  constructor
  · intro h
    induction ls with
    | nil => exact fun l hl ↦ absurd hl List.not_mem_nil
    | cons a l ih =>
      have hle : ∀ l : List Text, l.length ≤ (l.map fun l ↦ l.count '\n' + 1).sum := by
        intro l
        induction l with
        | nil => exact Nat.zero_le _
        | cons b l ih =>
          rw [List.length_cons, List.map_cons, List.sum_cons]
          omega
      have hrest := hle l
      rw [List.length_cons, List.map_cons, List.sum_cons] at h
      have ha : a.count '\n' = 0 := by omega
      intro b hb
      rcases List.mem_cons.1 hb with rfl | hb
      · exact List.count_eq_zero.1 ha
      · exact ih (by omega) b hb
  · intro h
    have hone : (ls.map fun l ↦ l.count '\n' + 1) = List.replicate ls.length 1 := by
      refine List.eq_replicate_iff.2 ⟨List.length_map _, fun n hn ↦ ?_⟩
      obtain ⟨l, hl, rfl⟩ := List.mem_map.1 hn
      rw [List.count_eq_zero.2 (h l hl)]
    rw [hone, List.sum_replicate_nat, Nat.mul_one]

/-- The lines of a payload are read as they should exactly when none has a line feed, and each is read so. -/
theorem map_lines_iff {α β : Type*} (read : Text → β) (line : α → Text) (value : α → β) (as : List α) :
    (lines (payloadOf (as.map line))).map read = as.map value ↔
      ∀ a ∈ as, '\n' ∉ line a ∧ read (line a) = value a := by
  constructor
  · intro h
    have hlength : (lines (payloadOf (as.map line))).length = (as.map line).length := by
      rw [← List.length_map (f := read), h, List.length_map, List.length_map]
    have hnone := (length_lines_eq_iff _).1 hlength
    rw [lines_payloadOf hnone, List.map_map] at h
    intro a ha
    exact ⟨hnone _ (List.mem_map_of_mem ha), List.map_inj_left.1 h a ha⟩
  · intro h
    have hnone : ∀ l ∈ as.map line, '\n' ∉ l := by
      intro l hl
      obtain ⟨a, ha, rfl⟩ := List.mem_map.1 hl
      exact (h a ha).1
    rw [lines_payloadOf hnone, List.map_map]
    exact List.map_congr_left fun a ha ↦ (h a ha).2

/-! ### Documents -/

theorem numbersOk_number (n : ℕ) : JsonText.NumbersOk (number n) := by
  rw [number, JsonText.NumbersOk]
  refine ⟨Nat.toDigits_ne_nil, fun c hc ↦ ?_, rfl⟩
  rw [JsonText.isNumberChar, Text.isDigit_of_mem_decimal hc]
  rfl

theorem numbersOk_to_ecs (e : SecurityEvent) : JsonText.NumbersOk e.to_ecs := by
  have hnumber := numbersOk_number (severityNum e.severity)
  simp only [SecurityEvent.to_ecs, JsonText.NumbersOk, JsonText.NumbersOkFields,
    JsonText.NumbersOkItems, hnumber, and_self]

theorem readNat_decimal (n : ℕ) : readNat (Text.decimal n) = some n := by
  have hall : (Text.decimal n).all Char.isDigit = true :=
    List.all_eq_true.2 fun c hc ↦ Text.isDigit_of_mem_decimal hc
  rw [readNat, if_pos ⟨Nat.toDigits_ne_nil, hall⟩]
  exact congrArg some Nat.ofDigitChars_ten_toDigits

/-- An ECS line is read back. -/
theorem readEcs_to_ecs (e : SecurityEvent) :
    readEcs (JsonText.print e.to_ecs) = some e.reported := by
  have hloads := JsonText.loads_print (numbersOk_to_ecs e)
  have hnat := readNat_decimal (severityNum e.severity)
  rw [readEcs, hloads]
  show (readNat (Text.decimal (severityNum e.severity))).bind (fun severity ↦
    some { e.reported with severity }) = _
  rw [hnat]
  rfl

/-! ### Titles -/

/-- A character of a title as it is written. -/
def writeChar (c : Char) : Text := if c = '|' then ['\\', '|'] else if c = '=' then ['\\', '='] else [c]

/-- `to_cef` writes a title character by character. -/
theorem name_eq (title : Text) : SecurityEvent.replace '=' "\\=".toList
    (SecurityEvent.replace '|' "\\|".toList title) = title.flatMap writeChar := by
  rw [SecurityEvent.replace, SecurityEvent.replace, List.flatMap_assoc]
  refine List.flatMap_congr fun c _ ↦ ?_
  rw [writeChar]
  by_cases hbar : c = '|'
  · subst hbar
    rfl
  · rw [if_neg hbar, if_neg hbar, List.flatMap_singleton]
    rfl

/-- Every backslash has an equals sign directly behind it. -/
def BackslashesPrecedeEquals (title : Text) : Prop :=
  ∀ before after, title = before ++ '\\' :: after → ∃ z, after = '=' :: z

theorem BackslashesPrecedeEquals.of_append {x y : Text} (h : BackslashesPrecedeEquals (x ++ y)) :
    BackslashesPrecedeEquals y := by
  rintro before after rfl
  exact h (x ++ before) after (List.append_assoc _ _ _).symm

theorem BackslashesPrecedeEquals.of_cons {c : Char} {t : Text} (h : BackslashesPrecedeEquals (c :: t)) :
    BackslashesPrecedeEquals t :=
  BackslashesPrecedeEquals.of_append (x := [c]) h

theorem backslashesPrecedeEquals_cons {c : Char} (hc : c ≠ '\\') {t : Text}
    (h : BackslashesPrecedeEquals t) : BackslashesPrecedeEquals (c :: t) := by
  intro before after heq
  cases before with
  | nil => exact absurd (List.cons.inj heq).1 hc
  | cons d before => exact h before after (List.cons.inj heq).2

/-- A title behind more backslashes than are written is not read. -/
theorem not_backslashes_title (r y : Text) {k : ℕ} (hk : 0 < k) :
    ¬(List.replicate k '\\' ++ r <+: (upTo id '|' (r.flatMap writeChar ++ '|' :: y)).1) := by
  obtain ⟨k, rfl⟩ := Nat.exists_eq_add_of_lt hk
  rw [Nat.zero_add]
  intro h
  induction hr : r.length using Nat.strong_induction_on generalizing r k with
  | _ n ih =>
    rw [List.replicate_succ, List.cons_append] at h
    have hcons : ∀ (d : Char) (x : Text), '\\' :: (List.replicate k '\\' ++ r) <+: d :: x → d = '\\' :=
      fun d x hx ↦ (List.cons_prefix_cons.1 hx).1.symm
    cases r with
    | nil =>
      rw [List.flatMap_nil, List.nil_append, upTo_sep (by decide)] at h
      exact List.cons_ne_nil _ _ (List.prefix_nil.1 h)
    | cons c r =>
      rw [List.flatMap_cons, List.append_assoc] at h
      by_cases hbar : c = '|'
      · subst hbar
        rw [writeChar, if_pos rfl, List.cons_append, List.cons_append, upTo_escape] at h
        exact absurd (hcons _ _ h) (by decide)
      by_cases heq : c = '='
      · subst heq
        rw [writeChar, if_neg (by decide), if_pos rfl, List.cons_append, List.cons_append,
          upTo_escape] at h
        exact absurd (hcons _ _ h) (by decide)
      rw [writeChar, if_neg hbar, if_neg heq, List.cons_append, List.nil_append] at h
      by_cases hc : c = '\\'
      · subst hc
        cases r with
        | nil =>
          rw [List.flatMap_nil, List.nil_append, upTo_escape] at h
          exact absurd (hcons _ _ h) (by decide)
        | cons d r =>
          rw [List.flatMap_cons, List.append_assoc] at h
          by_cases hdbar : d = '|'
          · -- the backslash of the bar is taken as escaped, and the bar ends the title
            subst hdbar
            rw [writeChar, if_pos rfl, List.cons_append, List.cons_append, List.nil_append,
              upTo_escape, upTo_sep (by decide)] at h
            have hle := h.length_le
            rw [List.length_cons, List.length_append, List.length_cons, List.length_cons,
              List.length_singleton] at hle
            omega
          by_cases hdeq : d = '='
          · subst hdeq
            rw [writeChar, if_neg (by decide), if_pos rfl, List.cons_append, List.cons_append,
              List.nil_append, upTo_escape, upTo_plain (by decide) (by decide)] at h
            have hnext := (List.cons_prefix_cons.1 h).2
            cases k with
            | zero => exact absurd (List.cons_prefix_cons.1 hnext).1 (by decide)
            | succ k =>
              rw [List.replicate_succ, List.cons_append] at hnext
              exact absurd (List.cons_prefix_cons.1 hnext).1 (by decide)
          rw [writeChar, if_neg hdbar, if_neg hdeq, List.cons_append, List.nil_append,
            upTo_escape] at h
          obtain ⟨hd, hrest⟩ := List.cons_prefix_cons.1 h
          obtain rfl : '\\' = d := hd
          have hmore : List.replicate k '\\' ++ '\\' :: '\\' :: r =
              List.replicate (k + 1 + 1) '\\' ++ r := by
            rw [List.replicate_succ', List.replicate_succ', List.append_assoc, List.append_assoc]
            rfl
          rw [hmore] at hrest
          refine ih r.length ?_ r (k + 1) (Nat.succ_pos _) hrest rfl
          rw [← hr, List.length_cons, List.length_cons]
          omega
      · rw [upTo_plain hc hbar] at h
        exact hc (hcons _ _ h)

/-- Where its backslashes stand in front of equals signs, a title is read back. -/
theorem upTo_title {title : Text} (h : BackslashesPrecedeEquals title) (y : Text) :
    upTo id '|' (title.flatMap writeChar ++ '|' :: y) = (title, some y) := by
  induction ht : title.length using Nat.strong_induction_on generalizing title with
  | _ n ih =>
    cases title with
    | nil => exact upTo_sep (by decide) y
    | cons c t =>
      have hnext := ih t.length (by rw [← ht]; exact Nat.lt_succ_self _) h.of_cons rfl
      rw [List.flatMap_cons, List.append_assoc]
      by_cases hbar : c = '|'
      · rw [writeChar, if_pos hbar, List.cons_append, List.cons_append, List.nil_append, upTo_escape,
          hnext, hbar]
        rfl
      by_cases heq : c = '='
      · rw [writeChar, if_neg hbar, if_pos heq, List.cons_append, List.cons_append, List.nil_append,
          upTo_escape, hnext, heq]
        rfl
      rw [writeChar, if_neg hbar, if_neg heq, List.cons_append, List.nil_append]
      by_cases hc : c = '\\'
      · subst hc
        obtain ⟨z, rfl⟩ := h [] t rfl
        have hrest := ih z.length (by rw [← ht, List.length_cons, List.length_cons]; omega)
          h.of_cons.of_cons rfl
        -- the two backslashes are read as one, and the equals sign as itself
        rw [List.flatMap_cons, List.append_assoc, writeChar, if_neg (by decide), if_pos rfl,
          List.cons_append, List.cons_append, List.nil_append, upTo_escape,
          upTo_plain (by decide) (by decide), hrest]
        rfl
      · rw [upTo_plain hc hbar, hnext]

/-- What is read of a title is the title exactly when its backslashes stand in front of equals signs. -/
theorem isPrefix_title_iff (title y : Text) :
    title <+: (upTo id '|' (title.flatMap writeChar ++ '|' :: y)).1 ↔
      BackslashesPrecedeEquals title := by
  constructor
  · intro h
    induction ht : title.length using Nat.strong_induction_on generalizing title with
    | _ n ih =>
      cases title with
      | nil =>
        intro before after heq
        exact absurd heq (by cases before <;> rintro ⟨⟩)
      | cons c t =>
        rw [List.flatMap_cons, List.append_assoc] at h
        have hnext : ∀ d, (upTo id '|' (writeChar c ++ (t.flatMap writeChar ++ '|' :: y))).1 =
            d :: (upTo id '|' (t.flatMap writeChar ++ '|' :: y)).1 → BackslashesPrecedeEquals t := by
          intro d hd
          rw [hd] at h
          refine ih t.length ?_ t (List.cons_prefix_cons.1 h).2 rfl
          rw [← ht]
          exact Nat.lt_succ_self _
        by_cases hbar : c = '|'
        · refine backslashesPrecedeEquals_cons (by rw [hbar]; decide) (hnext '|' ?_)
          rw [writeChar, if_pos hbar, List.cons_append, List.cons_append, upTo_escape]
          rfl
        by_cases heq : c = '='
        · refine backslashesPrecedeEquals_cons (by rw [heq]; decide) (hnext '=' ?_)
          rw [writeChar, if_neg hbar, if_pos heq, List.cons_append, List.cons_append, upTo_escape]
          rfl
        have hwrite : writeChar c = [c] := by rw [writeChar, if_neg hbar, if_neg heq]
        by_cases hc : c = '\\'
        · subst hc
          rw [hwrite, List.cons_append, List.nil_append] at h
          cases t with
          | nil =>
            rw [List.flatMap_nil, List.nil_append, upTo_escape] at h
            exact absurd (List.cons_prefix_cons.1 h).1 (by decide)
          | cons d t =>
            rw [List.flatMap_cons, List.append_assoc] at h
            by_cases hdbar : d = '|'
            · subst hdbar
              rw [writeChar, if_pos rfl, List.cons_append, List.cons_append, List.nil_append,
                upTo_escape, upTo_sep (by decide)] at h
              have hle := h.length_le
              rw [List.length_cons, List.length_cons, List.length_singleton] at hle
              omega
            by_cases hdeq : d = '='
            · subst hdeq
              rw [writeChar, if_neg (by decide), if_pos rfl, List.cons_append, List.cons_append,
                List.nil_append, upTo_escape, upTo_plain (by decide) (by decide)] at h
              have hrest : BackslashesPrecedeEquals t := by
                refine ih t.length ?_ t (List.cons_prefix_cons.1 (List.cons_prefix_cons.1 h).2).2 rfl
                rw [← ht, List.length_cons, List.length_cons]
                omega
              intro before after hsplit
              cases before with
              | nil => exact ⟨t, (List.cons.inj hsplit).2.symm⟩
              | cons b before =>
                exact backslashesPrecedeEquals_cons (by decide) hrest before after
                  (List.cons.inj hsplit).2
            rw [writeChar, if_neg hdbar, if_neg hdeq, List.cons_append, List.nil_append,
              upTo_escape] at h
            obtain ⟨hd, hrest⟩ := List.cons_prefix_cons.1 h
            obtain rfl : '\\' = d := hd
            exact absurd hrest (not_backslashes_title t y Nat.one_pos)
        · refine backslashesPrecedeEquals_cons hc (hnext c ?_)
          rw [hwrite, List.cons_append, List.nil_append, upTo_plain hc hbar]
  · intro h
    exact ⟨[], by rw [upTo_title h, List.append_nil]⟩

/-! ### Headers -/

theorem clean_of_all {sep : Char} {v : Text} (h : v.all (fun c ↦ c != '\\' && c != sep) = true) :
    Clean sep v := by
  intro c hc
  have hboth := List.all_eq_true.1 h c hc
  rw [Bool.and_eq_true] at hboth
  exact ⟨bne_iff_ne.1 hboth.1, bne_iff_ne.1 hboth.2⟩

/-- The fields of a header are read one by one. -/
theorem header_cons_iff {n : ℕ} {y field x : Text} {fields : List Text} :
    header (n + 1) y = some (field :: fields, x) ↔
      ∃ rest, upTo id '|' y = (field, some rest) ∧ header n rest = some (fields, x) := by
  rw [header]
  rcases hy : upTo id '|' y with ⟨first, _ | rest⟩
  · constructor
    · rintro ⟨⟩
    · rintro ⟨rest, ⟨⟩, _⟩
  · show (header n rest).map (fun r ↦ (first :: r.1, r.2)) = _ ↔ _
    rw [Option.map_eq_some_iff]
    constructor
    · rintro ⟨r, hr, heq⟩
      cases heq
      exact ⟨rest, rfl, hr⟩
    · rintro ⟨rest', heq, hr⟩
      cases heq
      exact ⟨_, hr, rfl⟩

theorem header_clean {field : Text} (h : Clean '|' field) (n : ℕ) (rest : Text) :
    header (n + 1) (field ++ '|' :: rest) = (header n rest).map fun r ↦ (field :: r.1, r.2) := by
  have hread : upTo id '|' (field ++ '|' :: rest) = (field, some rest) := by
    rw [upTo_append h, upTo_sep (by decide), List.append_nil]
  rw [header, hread]

theorem clean_decimal (n : ℕ) : Clean '|' (Text.decimal n) := by
  intro c hc
  have hdigit := Text.isDigit_of_mem_decimal hc
  constructor <;> rintro rfl <;> exact absurd hdigit (by decide)

/-! ### Extensions -/

/-- Values, each with the key behind it, and the last value. -/
def chain (last : Text) : List (Text × Text) → Text
  | [] => last
  | (value, key) :: rest => value ++ ' ' :: (key ++ '=' :: chain last rest)

/-- The values under the keys in front of them. -/
def named (key : Text) : List (Text × Text) → List (Text × Text)
  | [] => []
  | (value, next) :: rest => (key, value) :: named next rest

/-- Neither blanks nor what ends or changes a key. -/
def IsKey (key : Text) : Prop := Clean '=' key ∧ ' ' ∉ key

theorem rpartition_blank (value : Text) {key : Text} (h : ' ' ∉ key) :
    Text.rpartition ' ' (value ++ ' ' :: key) = (some value, key) := by
  have hrev : (value ++ ' ' :: key).reverse = key.reverse ++ ' ' :: value.reverse := by
    rw [List.reverse_append, List.reverse_cons, List.append_assoc]
    rfl
  have hall : ∀ c ∈ key.reverse, (c != ' ') = true := by
    rintro c hc
    refine bne_iff_ne.2 ?_
    rintro rfl
    exact h (List.mem_reverse.1 hc)
  have htake : (' ' :: value.reverse).takeWhile (fun c ↦ c != ' ') = [] :=
    List.takeWhile_cons_of_neg (by decide)
  have hdrop : (' ' :: value.reverse).dropWhile (fun c ↦ c != ' ') = ' ' :: value.reverse :=
    List.dropWhile_cons_of_neg (by decide)
  rw [Text.rpartition, Text.partition, hrev, List.takeWhile_append_of_pos hall,
    List.dropWhile_append_of_pos hall, htake, hdrop, List.append_nil, List.reverse_reverse]
  show (some value.reverse.reverse, key) = _
  rw [List.reverse_reverse]

theorem pairsFrom_eq (key x : Text) : pairsFrom key x =
    match upTo unescape '=' x with
    | (segment, none) => [(key, segment)]
    | (segment, some rest) => (key, (splitKey segment).1) :: pairsFrom (splitKey segment).2 rest := by
  rw [pairsFrom]
  split <;> next h => rw [h]

/-- A clean value is read, up to the key behind it. -/
theorem pairsFrom_clean {value next : Text} (hvalue : Clean '=' value) (hnext : IsKey next)
    (key x : Text) :
    pairsFrom key (value ++ ' ' :: (next ++ '=' :: x)) = (key, value) :: pairsFrom next x := by
  have hread : upTo unescape '=' (value ++ ' ' :: (next ++ '=' :: x)) =
      (value ++ ' ' :: next, some x) := by
    rw [upTo_append hvalue, upTo_plain (by decide) (by decide), upTo_append hnext.1,
      upTo_sep (by decide), List.append_nil]
  rw [pairsFrom_eq, hread]
  show (key, (splitKey (value ++ ' ' :: next)).1) :: pairsFrom (splitKey (value ++ ' ' :: next)).2 x = _
  rw [splitKey, rpartition_blank value hnext.2]
  rfl

/-- The first value is read from the text up to the first separator. -/
theorem exists_pairsFrom (key x : Text) :
    ∃ value more, pairsFrom key x = (key, value) :: more ∧ value <+: (upTo unescape '=' x).1 := by
  rw [pairsFrom_eq]
  rcases hx : upTo unescape '=' x with ⟨segment, _ | rest⟩
  · exact ⟨segment, [], rfl, List.prefix_refl segment⟩
  · refine ⟨(splitKey segment).1, _, rfl, ?_⟩
    show (splitKey segment).1 <+: segment
    rw [splitKey, Text.rpartition, Text.partition]
    -- the value stands in front of the last blank, if there is one
    have hdrop := List.dropWhile_suffix (fun c ↦ c != ' ') (l := segment.reverse)
    cases hrest : segment.reverse.dropWhile (fun c ↦ c != ' ') with
    | nil => exact List.nil_prefix
    | cons c after =>
      rw [hrest] at hdrop
      have hafter : after <:+ segment.reverse := (List.suffix_cons c after).trans hdrop
      show after.reverse <+: segment
      rw [← List.reverse_suffix, List.reverse_reverse]
      exact hafter

theorem unescape_backslash (d : Char) (h : unescape d = '\\') : d = '\\' := by
  rw [unescape] at h
  by_cases hn : d = 'n'
  · rw [if_pos hn] at h
    exact absurd h (by decide)
  by_cases hr : d = 'r'
  · rw [if_neg hn, if_pos hr] at h
    exact absurd h (by decide)
  rwa [if_neg hn, if_neg hr] at h

/-- Clean values are read under their keys. -/
theorem pairsFrom_chain {l : List (Text × Text)} (hkeys : ∀ p ∈ l, IsKey p.2)
    (hclean : ∀ p ∈ l, Clean '=' p.1) (key last : Text) :
    ∃ more, pairsFrom key (chain last l) = named key l ++ more := by
  induction l generalizing key with
  | nil => exact ⟨_, rfl⟩
  | cons p l ih =>
    obtain ⟨more, hmore⟩ := ih (fun q hq ↦ hkeys q (List.mem_cons_of_mem p hq))
      (fun q hq ↦ hclean q (List.mem_cons_of_mem p hq)) p.2
    refine ⟨more, ?_⟩
    show pairsFrom key (p.1 ++ ' ' :: (p.2 ++ '=' :: chain last l)) = (key, p.1) :: named p.2 l ++ more
    rw [pairsFrom_clean (hclean p List.mem_cons_self) (hkeys p List.mem_cons_self), hmore]
    rfl

theorem key_mem_of_mem_named {key : Text} {l : List (Text × Text)} {p : Text × Text}
    (h : p ∈ named key l) : p.1 ∈ key :: l.map Prod.snd := by
  induction l generalizing key with
  | nil => exact absurd h List.not_mem_nil
  | cons q l ih =>
    rcases List.mem_cons.1 h with rfl | hp
    · exact List.mem_cons_self
    · exact List.mem_cons_of_mem key (ih hp)

/-- Where each value is clean or found under its key, all of them are clean. -/
theorem clean_of_lookups {l : List (Text × Text)} (hkeys : ∀ p ∈ l, IsKey p.2) {key : Text}
    (hnodup : (key :: l.map Prod.snd).Nodup) (last : Text)
    (h : ∀ p ∈ named key l, Clean '=' p.2 ∨
      (pairsFrom key (chain last l)).lookup p.1 = some p.2) :
    ∀ p ∈ l, Clean '=' p.1 := by
  induction l generalizing key with
  | nil => exact fun p hp ↦ absurd hp List.not_mem_nil
  | cons p l ih =>
    obtain ⟨hnot, hrest⟩ := List.nodup_cons.1 hnodup
    have hp : Clean '=' p.1 := by
      rcases h (key, p.1) List.mem_cons_self with hclean | hlookup
      · exact hclean
      · obtain ⟨value, more, hpairs, hpre⟩ := exists_pairsFrom key (chain last (p :: l))
        rw [hpairs, List.lookup_cons_self] at hlookup
        cases hlookup
        exact (isPrefix_upTo_iff unescape_backslash (by decide) (by decide) _ _).1 hpre
    have hread : pairsFrom key (chain last (p :: l)) =
        (key, p.1) :: pairsFrom p.2 (chain last l) :=
      pairsFrom_clean hp (hkeys p List.mem_cons_self) key (chain last l)
    intro q hq
    rcases List.mem_cons.1 hq with rfl | hq
    · exact hp
    · refine ih (fun q hq ↦ hkeys q (List.mem_cons_of_mem p hq)) hrest (fun q hq ↦ ?_) q hq
      rcases h q (List.mem_cons_of_mem _ hq) with hclean | hlookup
      · exact Or.inl hclean
      · refine Or.inr ?_
        have hne : q.1 ≠ key := by
          rintro hkey
          exact hnot (hkey ▸ key_mem_of_mem_named hq)
        rw [hread, List.lookup_cons, beq_false_of_ne hne] at hlookup
        exact hlookup

/-! ### Lines of events -/

section

variable [u : UnicodeTables]

/-- The values of an extension, each with the key behind it. -/
def SecurityEvent.values (e : SecurityEvent) : List (Text × Text) :=
  [("assessmentId".toList, "cs1".toList), (e.assessment_id, "cs2Label".toList),
    ("cwe".toList, "cs2".toList), (e.cwe, "cs3Label".toList), ("skillRef".toList, "cs3".toList),
    (e.skill_ref, "request".toList), (e.endpoint_url, "outcome".toList), (e.status, "rt".toList)]

/-- The extension, without the white space at its end. -/
def SecurityEvent.written (e : SecurityEvent) : Text :=
  "cs1Label".toList ++ '=' :: chain (Text.rstripSpace e.detected_at) e.values

/-- The line behind its first four fields. -/
def SecurityEvent.behind (e : SecurityEvent) : Text :=
  e.check_class ++ '|' :: (e.title.flatMap writeChar ++ '|' ::
    (Text.decimal (severityNum e.severity) ++ '|' :: e.written))

omit u in
theorem chain_eq (last : Text) (l : List (Text × Text)) : chain last l = chain [] l ++ last := by
  induction l with
  | nil => rfl
  | cons p l ih =>
    show p.1 ++ ' ' :: (p.2 ++ '=' :: chain last l) = p.1 ++ ' ' :: (p.2 ++ '=' :: chain [] l) ++ last
    rw [ih]
    simp only [List.append_assoc, List.cons_append]

omit u in
theorem getLast?_chain {l : List (Text × Text)} (h : l ≠ []) : (chain [] l).getLast? = some '=' := by
  induction l with
  | nil => exact absurd rfl h
  | cons p l ih =>
    have hend : ('=' :: chain [] l).getLast? = some '=' := by
      by_cases hl : l = []
      · rw [hl]
        rfl
      · rw [List.getLast?_cons, ih hl]
        rfl
    have hsplit : chain [] (p :: l) = (p.1 ++ ' ' :: p.2) ++ '=' :: chain [] l := by
      show p.1 ++ ' ' :: (p.2 ++ '=' :: chain [] l) = _
      rw [List.append_assoc]
      rfl
    rw [hsplit, List.getLast?_append, hend]
    rfl

omit u in
theorem ext_eq (e : SecurityEvent) :
    e.ext = "cs1Label".toList ++ '=' :: chain e.detected_at e.values := by
  have h1 : "cs1Label=assessmentId cs1=".toList =
      "cs1Label".toList ++ '=' :: ("assessmentId".toList ++ ' ' :: ("cs1".toList ++ ['='])) := by decide
  have h2 : " cs2Label=cwe cs2=".toList =
      ' ' :: ("cs2Label".toList ++ '=' :: ("cwe".toList ++ ' ' :: ("cs2".toList ++ ['=']))) := by decide
  have h3 : " cs3Label=skillRef cs3=".toList =
      ' ' :: ("cs3Label".toList ++ '=' :: ("skillRef".toList ++ ' ' :: ("cs3".toList ++ ['=']))) := by
    decide
  have h4 : " request=".toList = ' ' :: ("request".toList ++ ['=']) := by decide
  have h5 : " outcome=".toList = ' ' :: ("outcome".toList ++ ['=']) := by decide
  have h6 : " rt=".toList = ' ' :: ("rt".toList ++ ['=']) := by decide
  -- the names are variables here, so that nothing looks into them
  have hshape : ∀ {t1 t2 t3 t4 t5 t6 l1 v1 k1 l2 v2 k2 l3 v3 k3 k4 k5 k6 : Text},
      t1 = l1 ++ '=' :: (v1 ++ ' ' :: (k1 ++ ['='])) →
      t2 = ' ' :: (l2 ++ '=' :: (v2 ++ ' ' :: (k2 ++ ['=']))) →
      t3 = ' ' :: (l3 ++ '=' :: (v3 ++ ' ' :: (k3 ++ ['=']))) →
      t4 = ' ' :: (k4 ++ ['=']) → t5 = ' ' :: (k5 ++ ['=']) → t6 = ' ' :: (k6 ++ ['=']) →
      t1 ++ e.assessment_id ++ t2 ++ e.cwe ++ t3 ++ e.skill_ref ++ t4 ++ e.endpoint_url ++ t5 ++
          e.status ++ t6 ++ e.detected_at =
        l1 ++ '=' :: chain e.detected_at [(v1, k1), (e.assessment_id, l2), (v2, k2), (e.cwe, l3),
          (v3, k3), (e.skill_ref, k4), (e.endpoint_url, k5), (e.status, k6)] := by
    rintro t1 t2 t3 t4 t5 t6 l1 v1 k1 l2 v2 k2 l3 v3 k3 k4 k5 k6 rfl rfl rfl rfl rfl rfl
    simp only [chain, List.append_assoc, List.cons_append, List.nil_append]
  exact hshape h1 h2 h3 h4 h5 h6

theorem to_cef_eq [LawfulAsciiSpaces] (e : SecurityEvent) :
    e.to_cef = "CEF:0|Sentrik|Sentrik|1.0|".toList ++ e.behind := by
  have hhead : u.isSpace 'C' = false := LawfulAsciiSpaces.isSpace_ascii (by decide)
  have hlast : u.isSpace '=' = false := LawfulAsciiSpaces.isSpace_ascii (by decide)
  have hbar : "|".toList = ['|'] := by decide
  obtain ⟨start, hstart⟩ : ∃ start, "CEF:0|Sentrik|Sentrik|1.0|".toList = 'C' :: start :=
    ⟨"EF:0|Sentrik|Sentrik|1.0|".toList, by decide⟩
  -- the line ends with an equals sign and the time
  obtain ⟨front, hfront⟩ : ∃ front, front = 'C' :: start ++ (e.check_class ++ '|' ::
      (e.title.flatMap writeChar ++ '|' :: (Text.decimal (severityNum e.severity) ++ '|' ::
        ("cs1Label".toList ++ '=' :: chain [] e.values)))) := ⟨_, rfl⟩
  have hparts : ∀ time, front ++ time = 'C' :: start ++ (e.check_class ++ '|' ::
      (e.title.flatMap writeChar ++ '|' :: (Text.decimal (severityNum e.severity) ++ '|' ::
        ("cs1Label".toList ++ '=' :: chain time e.values)))) := by
    intro time
    rw [hfront, chain_eq time]
    simp only [List.append_assoc, List.cons_append]
  have hfirst : (front ++ e.detected_at).head? = some 'C' := by rw [hfront]; rfl
  have hend : front.getLast? = some '=' := by
    have hchain := getLast?_chain (l := e.values) (List.cons_ne_nil _ _)
    rw [hfront]
    simp only [List.getLast?_append, List.getLast?_cons, hchain, Option.getD_some, Option.some_or]
  have hwhole : e.to_cef = Text.strip (front ++ e.detected_at) := by
    rw [SecurityEvent.to_cef, hparts, name_eq, ext_eq, hbar, hstart]
    simp only [List.append_assoc, List.cons_append, List.nil_append]
  rw [hwhole, Text.strip_of_head hfirst hhead, Text.rstripSpace_append hend hlast, hparts, hstart]
  rfl

/-! ### Reading lines -/

omit u in
/-- When a line is read as an event. -/
theorem readCef_eq_some_iff {line : Text} {r : Reported} :
    readCef line = some r ↔ ∃ a b c d num x,
      header 7 line = some ([a, b, c, d, r.check_class, r.title, num], x) ∧
        readNat num = some r.severity ∧ (pairs x).lookup "request".toList = some r.url ∧
        (pairs x).lookup "cs2".toList = some r.cwe ∧ (pairs x).lookup "cs3".toList = some r.skill_ref ∧
        (pairs x).lookup "cs1".toList = some r.assessment_id ∧
        (pairs x).lookup "outcome".toList = some r.status := by
  rw [readCef]
  split
  · next a b c d check_class title num x hheader =>
    constructor
    · intro h
      simp only [bind, Option.bind_eq_some_iff, pure, Option.some.injEq] at h
      obtain ⟨severity, hnum, url, hurl, cwe, hcwe, skill_ref, hskill, assessment_id, hid, status,
        hstatus, rfl⟩ := h
      exact ⟨a, b, c, d, num, x, hheader, hnum, hurl, hcwe, hskill, hid, hstatus⟩
    · rintro ⟨a', b', c', d', num', x', hheader', hnum, hurl, hcwe, hskill, hid, hstatus⟩
      rw [hheader] at hheader'
      cases hheader'
      rw [hnum, hurl, hcwe, hskill, hid, hstatus]
      rfl
  · next hnone =>
    constructor
    · rintro ⟨⟩
    · rintro ⟨a, b, c, d, num, x, hheader, _⟩
      exact absurd hheader (hnone a b c d r.check_class r.title num x)

omit u in
/-- The first four fields are read whatever follows. -/
theorem header_device (n : ℕ) (y : Text) :
    header (n + 4) ("CEF:0|Sentrik|Sentrik|1.0|".toList ++ y) = (header n y).map fun r ↦
      ("CEF:0".toList :: "Sentrik".toList :: "Sentrik".toList :: "1.0".toList :: r.1, r.2) := by
  have hsplit : "CEF:0|Sentrik|Sentrik|1.0|".toList ++ y = "CEF:0".toList ++ '|' ::
      ("Sentrik".toList ++ '|' :: ("Sentrik".toList ++ '|' :: ("1.0".toList ++ '|' :: y))) := by
    have hwhole : "CEF:0|Sentrik|Sentrik|1.0|".toList = "CEF:0".toList ++ '|' ::
        ("Sentrik".toList ++ '|' :: ("Sentrik".toList ++ '|' :: ("1.0".toList ++ ['|']))) := by decide
    rw [hwhole]
    simp only [List.append_assoc, List.cons_append, List.nil_append]
  rw [hsplit, header_clean (clean_of_all (by decide)), header_clean (clean_of_all (by decide)),
    header_clean (clean_of_all (by decide)), header_clean (clean_of_all (by decide))]
  simp only [Option.map_map]
  rfl

omit u in
theorem isKey_of_mem_values {e : SecurityEvent} : ∀ p ∈ e.values, IsKey p.2 := by
  intro p hp
  have hkey : p.2 ∈ e.values.map Prod.snd := List.mem_map_of_mem hp
  have hkeys : (e.values.map Prod.snd).all (fun k ↦
      k.all (fun c ↦ c != '\\' && c != '=') && k.all (fun c ↦ c != ' ')) = true := by
    show (["cs1".toList, "cs2Label".toList, "cs2".toList, "cs3Label".toList, "cs3".toList,
      "request".toList, "outcome".toList, "rt".toList].all _) = true
    decide
  have hboth := List.all_eq_true.1 hkeys p.2 hkey
  rw [Bool.and_eq_true] at hboth
  exact ⟨clean_of_all hboth.1, fun hblank ↦
    absurd rfl (bne_iff_ne.1 (List.all_eq_true.1 hboth.2 ' ' hblank))⟩

omit u in
theorem nodup_keys (e : SecurityEvent) : ("cs1Label".toList :: e.values.map Prod.snd).Nodup := by
  show ["cs1Label".toList, "cs1".toList, "cs2Label".toList, "cs2".toList, "cs3Label".toList,
    "cs3".toList, "request".toList, "outcome".toList, "rt".toList].Nodup
  decide

/-- The values of an event that are read by their keys. -/
def SecurityEvent.reportedValues (e : SecurityEvent) : List Text :=
  [e.assessment_id, e.cwe, e.skill_ref, e.endpoint_url, e.status]

omit u in
theorem pairs_append {key : Text} (h : Clean '=' key) (x : Text) :
    pairs (key ++ '=' :: x) = pairsFrom key x := by
  have hread : upTo unescape '=' (key ++ '=' :: x) = (key, some x) := by
    rw [upTo_append h, upTo_sep (by decide), List.append_nil]
  rw [pairs, hread]

theorem pairs_written (e : SecurityEvent) :
    pairs e.written = pairsFrom "cs1Label".toList (chain (Text.rstripSpace e.detected_at) e.values) :=
  pairs_append (clean_of_all (by decide)) _

omit u in
theorem lookup_append_of_mem {l : List (Text × Text)} (hnodup : (l.map Prod.fst).Nodup)
    {key value : Text} (h : (key, value) ∈ l) (more : List (Text × Text)) :
    (l ++ more).lookup key = some value := by
  induction l with
  | nil => exact absurd h List.not_mem_nil
  | cons p l ih =>
    obtain ⟨hnot, hrest⟩ := List.nodup_cons.1 hnodup
    rcases List.mem_cons.1 h with rfl | h
    · exact List.lookup_cons_self
    · have hne : key ≠ p.1 := by
        rintro rfl
        exact hnot (List.mem_map.2 ⟨_, h, rfl⟩)
      rw [List.cons_append, List.lookup_cons, beq_false_of_ne hne]
      exact ih hrest h

omit u in
theorem keys_named_isPrefix (key : Text) (l : List (Text × Text)) :
    (named key l).map Prod.fst <+: key :: l.map Prod.snd := by
  induction l generalizing key with
  | nil => exact List.nil_prefix
  | cons p l ih => exact List.cons_prefix_cons.2 ⟨rfl, ih p.2⟩

/-- When the line of an event is read as it. -/
theorem readCef_behind_iff (e : SecurityEvent) :
    readCef ("CEF:0|Sentrik|Sentrik|1.0|".toList ++ e.behind) = some e.reported ↔
      Clean '|' e.check_class ∧ BackslashesPrecedeEquals e.title ∧
        ∀ v ∈ e.reportedValues, Clean '=' v := by
  -- a clean class and a title that is read leave the rest of the line to be read
  have hrest : Clean '|' e.check_class → BackslashesPrecedeEquals e.title →
      header 3 e.behind =
        some ([e.check_class, e.title, Text.decimal (severityNum e.severity)], e.written) := by
    intro hclass htitle
    have hlast : header 1 (Text.decimal (severityNum e.severity) ++ '|' :: e.written) =
        some ([Text.decimal (severityNum e.severity)], e.written) := by
      rw [header_clean (clean_decimal _)]
      rfl
    have htwo := header_cons_iff.2 ⟨_, upTo_title htitle _, hlast⟩
    rw [SecurityEvent.behind, header_clean hclass, htwo]
    rfl
  rw [readCef_eq_some_iff, header_device 3]
  constructor
  · rintro ⟨a, b, c, d, num, x, hheader, -, hurl, hcwe, hskill, hid, hstatus⟩
    obtain ⟨⟨fields, x'⟩, hread, heq⟩ := Option.map_eq_some_iff.1 hheader
    obtain ⟨hfields, rfl⟩ := Prod.mk.inj heq
    obtain rfl : fields = [e.check_class, e.title, num] :=
      (List.cons.inj (List.cons.inj (List.cons.inj (List.cons.inj hfields).2).2).2).2
    obtain ⟨rest, hfirst, hnext⟩ := header_cons_iff.1 hread
    have hclass : Clean '|' e.check_class := by
      have hpre : e.check_class <+: (upTo id '|' e.behind).1 := ⟨[], by rw [hfirst, List.append_nil]⟩
      exact (isPrefix_upTo_iff (fun _ h ↦ h) (by decide) (by decide) _ _).1 hpre
    have htitle : BackslashesPrecedeEquals e.title := by
      rw [SecurityEvent.behind, upTo_append hclass, upTo_sep (by decide)] at hfirst
      obtain rfl := Option.some.inj (Prod.mk.inj hfirst).2
      obtain ⟨rest, hsecond, -⟩ := header_cons_iff.1 hnext
      refine (isPrefix_title_iff e.title
        (Text.decimal (severityNum e.severity) ++ '|' :: e.written)).1 ?_
      exact ⟨[], by rw [hsecond, List.append_nil]⟩
    rw [hrest hclass htitle] at hread
    obtain rfl := (Prod.mk.inj (Option.some.inj hread)).2
    rw [pairs_written] at hurl hcwe hskill hid hstatus
    have hclean := clean_of_lookups isKey_of_mem_values (nodup_keys e) (Text.rstripSpace e.detected_at)
      (fun p hp ↦ by
        simp only [SecurityEvent.values, named, List.mem_cons, List.not_mem_nil, or_false] at hp
        rcases hp with rfl | rfl | rfl | rfl | rfl | rfl | rfl | rfl
        · exact Or.inl (clean_of_all (by decide))
        · exact Or.inr hid
        · exact Or.inl (clean_of_all (by decide))
        · exact Or.inr hcwe
        · exact Or.inl (clean_of_all (by decide))
        · exact Or.inr hskill
        · exact Or.inr hurl
        · exact Or.inr hstatus)
    refine ⟨hclass, htitle, fun v hv ↦ ?_⟩
    obtain ⟨p, hp, rfl⟩ : ∃ p ∈ e.values, p.1 = v := by
      simp only [SecurityEvent.reportedValues, List.mem_cons, List.not_mem_nil, or_false] at hv
      rcases hv with rfl | rfl | rfl | rfl | rfl
      all_goals simp only [SecurityEvent.values, List.mem_cons, exists_eq_or_imp, true_or, or_true]
    exact hclean p hp
  · rintro ⟨hclass, htitle, hvalues⟩
    have hclean : ∀ p ∈ e.values, Clean '=' p.1 := by
      intro p hp
      simp only [SecurityEvent.values, List.mem_cons, List.not_mem_nil, or_false] at hp
      simp only [SecurityEvent.reportedValues, List.mem_cons, List.not_mem_nil, or_false,
        forall_eq_or_imp, forall_eq] at hvalues
      obtain ⟨hid, hcwe, hskill, hurl, hstatus⟩ := hvalues
      rcases hp with rfl | rfl | rfl | rfl | rfl | rfl | rfl | rfl
      · exact clean_of_all (by decide)
      · exact hid
      · exact clean_of_all (by decide)
      · exact hcwe
      · exact clean_of_all (by decide)
      · exact hskill
      · exact hurl
      · exact hstatus
    obtain ⟨more, hmore⟩ := pairsFrom_chain isKey_of_mem_values hclean "cs1Label".toList
      (Text.rstripSpace e.detected_at)
    have hlookup : ∀ {key value : Text}, (key, value) ∈ named "cs1Label".toList e.values →
        (pairs e.written).lookup key = some value := by
      intro key value hmem
      rw [pairs_written, hmore]
      exact lookup_append_of_mem
        ((nodup_keys e).sublist (keys_named_isPrefix _ _).sublist) hmem more
    refine ⟨_, _, _, _, _, _, Option.map_eq_some_iff.2 ⟨_, hrest hclass htitle, rfl⟩,
      readNat_decimal _, hlookup ?_, hlookup ?_, hlookup ?_, hlookup ?_, hlookup ?_⟩
    all_goals
      simp only [SecurityEvent.values, named, List.mem_cons, SecurityEvent.reported, true_or, or_true]

/-! ### Payloads -/

/-- What an event must be for its line to be read as it. -/
structure ReadableInCef (e : SecurityEvent) : Prop where
  check_class : Clean '|' e.check_class
  title : BackslashesPrecedeEquals e.title
  values : ∀ v ∈ e.reportedValues, Clean '=' v
  one_line : ∀ v ∈ e.check_class :: e.title :: Text.rstripSpace e.detected_at :: e.reportedValues, '\n' ∉ v

omit u in
theorem lf_notMem_chain {last : Text} {l : List (Text × Text)} (hkeys : ∀ p ∈ l, '\n' ∉ p.2) :
    '\n' ∉ chain last l ↔ '\n' ∉ last ∧ ∀ p ∈ l, '\n' ∉ p.1 := by
  induction l with
  | nil =>
    show '\n' ∉ last ↔ _
    simp only [List.not_mem_nil, false_implies, implies_true, and_true]
  | cons p l ih =>
    have hp := hkeys p List.mem_cons_self
    have hrest := ih fun q hq ↦ hkeys q (List.mem_cons_of_mem p hq)
    have hblank : ('\n' : Char) ≠ ' ' := by decide
    have hequals : ('\n' : Char) ≠ '=' := by decide
    show '\n' ∉ p.1 ++ ' ' :: (p.2 ++ '=' :: chain last l) ↔ _
    simp only [List.mem_append, List.mem_cons, hblank, hequals, hp, false_or, not_or, hrest,
      forall_eq_or_imp]
    tauto

omit u in
theorem lf_mem_title {title : Text} : '\n' ∈ title.flatMap writeChar ↔ '\n' ∈ title := by
  rw [List.mem_flatMap]
  constructor
  · rintro ⟨c, hc, hmem⟩
    rw [writeChar] at hmem
    by_cases hbar : c = '|'
    · rw [if_pos hbar] at hmem
      exact absurd hmem (by decide)
    by_cases heq : c = '='
    · rw [if_neg hbar, if_pos heq] at hmem
      exact absurd hmem (by decide)
    rw [if_neg hbar, if_neg heq] at hmem
    rwa [List.mem_singleton.1 hmem]
  · exact fun h ↦ ⟨'\n', h, by decide⟩

/-- When a line has no line feed. -/
theorem lf_notMem_to_cef_iff [LawfulAsciiSpaces] (e : SecurityEvent) :
    '\n' ∉ e.to_cef ↔
      ∀ v ∈ e.check_class :: e.title :: Text.rstripSpace e.detected_at :: e.reportedValues, '\n' ∉ v := by
  have hdecimal : '\n' ∉ Text.decimal (severityNum e.severity) := fun h ↦
    absurd (Text.isDigit_of_mem_decimal h) (by decide)
  have hkeys : ∀ p ∈ e.values, '\n' ∉ p.2 := by
    intro p hp
    simp only [SecurityEvent.values, List.mem_cons, List.not_mem_nil, or_false] at hp
    rcases hp with rfl | rfl | rfl | rfl | rfl | rfl | rfl | rfl
    all_goals exact of_decide_eq_true rfl
  have h1 : '\n' ∉ "assessmentId".toList := by decide
  have h2 : '\n' ∉ "cwe".toList := by decide
  have h3 : '\n' ∉ "skillRef".toList := by decide
  have hvalues : (∀ p ∈ e.values, '\n' ∉ p.1) ↔ ∀ v ∈ e.reportedValues, '\n' ∉ v := by
    simp only [SecurityEvent.values, SecurityEvent.reportedValues, List.mem_cons, List.not_mem_nil,
      or_false, forall_eq_or_imp, forall_eq, h1, h2, h3, not_false_eq_true, true_and]
  -- the names are variables here, so that nothing looks into them
  have hshape : ∀ {device label number title : Text}, '\n' ∉ device → '\n' ∉ label → '\n' ∉ number →
      ('\n' ∉ device ++ (e.check_class ++ '|' :: (title ++ '|' :: (number ++ '|' ::
          (label ++ '=' :: chain (Text.rstripSpace e.detected_at) e.values)))) ↔
        '\n' ∉ e.check_class ∧ '\n' ∉ title ∧
          '\n' ∉ chain (Text.rstripSpace e.detected_at) e.values) := by
    intro device label number title hdevice hlabel hnumber
    have hbar : ('\n' : Char) ≠ '|' := by decide
    have hequals : ('\n' : Char) ≠ '=' := by decide
    simp only [List.mem_append, List.mem_cons, hdevice, hlabel, hbar, hequals, hnumber, false_or,
      not_or]
  rw [to_cef_eq]
  refine (hshape (by decide) (by decide) hdecimal).trans ?_
  rw [lf_mem_title, lf_notMem_chain hkeys, hvalues]
  simp only [List.forall_mem_cons]

/-- The CEF lines are read as the events when these are readable. -/
theorem lines_cef_iff [LawfulAsciiSpaces] (events : List SecurityEvent) :
    (lines (payloadOf (events.map SecurityEvent.to_cef))).map readCef =
        events.map (fun e ↦ some e.reported) ↔ ∀ e ∈ events, ReadableInCef e := by
  rw [map_lines_iff]
  constructor
  · intro h e he
    obtain ⟨hline, hvalue⟩ := h e he
    rw [lf_notMem_to_cef_iff] at hline
    rw [to_cef_eq, readCef_behind_iff] at hvalue
    exact ⟨hvalue.1, hvalue.2.1, hvalue.2.2, hline⟩
  · intro h e he
    obtain ⟨hclass, htitle, hvalues, hline⟩ := h e he
    rw [lf_notMem_to_cef_iff, to_cef_eq, readCef_behind_iff]
    exact ⟨hline, hclass, htitle, hvalues⟩

/-- One line per event, read as the event: always for the documents, and for the CEF lines when the events
are readable. -/
theorem events_readable_iff [LawfulAsciiSpaces] (events : List SecurityEvent) (fmt : Text) :
    (lines (serialize events fmt).1).map (readLine fmt) = events.map (fun e ↦ some e.reported) ↔
      (fmt = "cef".toList → ∀ e ∈ events, ReadableInCef e) := by
  by_cases hfmt : fmt = "cef".toList
  · have hread : readLine fmt = readCef := funext fun line ↦ if_pos hfmt
    rw [serialize, if_pos hfmt, hread]
    show (lines (payloadOf (events.map SecurityEvent.to_cef))).map readCef = _ ↔ _
    rw [lines_cef_iff]
    exact ⟨fun h _ ↦ h, fun h ↦ h hfmt⟩
  · have hread : readLine fmt = readEcs := funext fun line ↦ if_neg hfmt
    rw [serialize, if_neg hfmt, hread, map_lines_iff]
    constructor
    · exact fun _ h ↦ absurd h hfmt
    · intro _ e _
      exact ⟨JsonText.lf_notMem_print (numbersOk_to_ecs e), readEcs_to_ecs e⟩

end

/-- A finding at an address without a query. -/
def unqueried : SecurityEvent where
  event_id := "f1".toList
  assessment_id := "a1".toList
  org_id := "o1".toList
  check_class := "bola".toList
  title := "Order|invoice of another user, a=b".toList
  severity := "high".toList
  status := "confirmed".toList
  cwe := "CWE-639".toList
  endpoint_url := "https://shop.example/orders/7".toList
  skill_ref := "bola/orders".toList
  detected_at := "2026-01-01T00:00:00+00:00".toList

theorem unqueried_read :
    (lines (@serialize asciiTables [unqueried] "cef".toList).1).map (readLine "cef".toList) =
      [some unqueried.reported] := by
  let tables : UnicodeTables := asciiTables
  refine (events_readable_iff [unqueried] "cef".toList).2 fun _ e he ↦ ?_
  obtain rfl := List.mem_singleton.1 he
  have hvalues : unqueried.reportedValues.all
      (fun v ↦ v.all fun c ↦ c != '\\' && c != '=') = true := by decide
  refine ⟨clean_of_all (by decide), ?_, fun v hv ↦ clean_of_all (List.all_eq_true.1 hvalues v hv), ?_⟩
  · -- the title has no backslash
    intro before after heq
    have hmem : '\\' ∈ unqueried.title := heq ▸ List.mem_append_right before List.mem_cons_self
    exact absurd hmem (by decide)
  · have hlines : (unqueried.check_class :: unqueried.title ::
        Text.rstripSpace unqueried.detected_at :: unqueried.reportedValues).all
          (fun v ↦ v.all fun c ↦ c != '\n') = true := by decide
    exact fun v hv hmem ↦
      absurd rfl (bne_iff_ne.1 (List.all_eq_true.1 (List.all_eq_true.1 hlines v hv) '\n' hmem))

/-- A finding at an address with a query. -/
def queried : SecurityEvent :=
  { unqueried with endpoint_url := "https://shop.example/orders?id=7".toList }

/-- What is read of its address ends with the path: the query is taken for a key. -/
theorem query_not_read :
    ¬ ∀ (tables : UnicodeTables) (events : List SecurityEvent) (fmt : Text),
      (lines (@serialize tables events fmt).1).map (readLine fmt) =
        events.map (fun e ↦ some e.reported) := by
  intro h
  let tables : UnicodeTables := asciiTables
  have hcef := (lines_cef_iff [queried]).1 (h tables [queried] "cef".toList)
  have hurl := (hcef queried List.mem_cons_self).values queried.endpoint_url (by decide)
  exact absurd rfl (hurl '=' (by decide)).2

end Siem
