import Sentrik.Library.Bytes

/-!
# Literal strings of PDF

A literal string stands between parentheses, which balance inside it. A backslash escapes what follows:
letters name control characters, up to three octal digits a byte, a line break is taken away, and any
other byte stands for itself. **A line break that is not escaped is read as a line feed**, whether it was
a carriage return, a line feed, or both.

A writer that puts a backslash in front of every backslash and parenthesis is read back up to line
breaks (`scan_escaped`), and exactly when there was no carriage return (`eol_eq_self_iff`).
-/

namespace LiteralString

/-! ### Reading -/

/-- What has been read just before. -/
inductive Mode
  /-- Nothing that the next byte depends on. -/
  | plain
  /-- A carriage return that was read as a line feed, or taken away. -/
  | afterReturn
  /-- A backslash. -/
  | escape
  /-- Some digits of an octal escape, and how many more there may be. -/
  | octal (value more : ℕ)
  deriving DecidableEq, Repr

/-- A string that is being read: how deep the parentheses are nested, and the bytes so far. -/
structure Partial where
  mode : Mode
  depth : ℕ
  bytes : Bytes
  deriving Repr

/-- What an escaped letter stands for; other bytes stand for themselves. -/
def unescape (c : UInt8) : UInt8 :=
  if c = 110 then 10 else if c = 114 then 13 else if c = 116 then 9
  else if c = 98 then 8 else if c = 102 then 12 else c

/-- Octal digits. -/
def isOctal (c : UInt8) : Bool := 48 ≤ c && c ≤ 55

/-- The next byte, where nothing read before matters: the string ends, or goes on. -/
def plainStep (depth : ℕ) (bytes : Bytes) (c : UInt8) : Bytes ⊕ Partial :=
  if c = 40 then .inr ⟨.plain, depth + 1, bytes ++ [c]⟩
  else if c = 41 then
    match depth with
    | 0 => .inl bytes
    | depth + 1 => .inr ⟨.plain, depth, bytes ++ [c]⟩
  else if c = 92 then .inr ⟨.escape, depth, bytes⟩
  else if c = 13 then .inr ⟨.afterReturn, depth, bytes ++ [10]⟩
  else .inr ⟨.plain, depth, bytes ++ [c]⟩

/-- The next byte of a string. -/
def step (s : Partial) (c : UInt8) : Bytes ⊕ Partial :=
  match s.mode with
  | .plain => plainStep s.depth s.bytes c
  | .afterReturn => if c = 10 then .inr { s with mode := .plain } else plainStep s.depth s.bytes c
  | .escape =>
    if c = 13 then .inr { s with mode := .afterReturn }
    else if c = 10 then .inr { s with mode := .plain }
    else if isOctal c then .inr { s with mode := .octal (c.toNat - 48) 2 }
    else .inr ⟨.plain, s.depth, s.bytes ++ [unescape c]⟩
  | .octal value more =>
    if isOctal c ∧ 0 < more then .inr { s with mode := .octal (8 * value + (c.toNat - 48)) (more - 1) }
    else plainStep s.depth (s.bytes ++ [UInt8.ofNat value]) c

/-- The strings of a stream in which everything outside of strings is plain tokens, in order. Nothing is
read when a string does not end. -/
def scan : Option Partial → Bytes → Option (List Bytes)
  | none, [] => some []
  | some _, [] => none
  | none, c :: rest => if c = 40 then scan (some ⟨.plain, 0, []⟩) rest else scan none rest
  | some s, c :: rest =>
    match step s c with
    | .inl bytes => (scan none rest).map (bytes :: ·)
    | .inr s' => scan (some s') rest

/-- The string operands of a content stream. -/
def operands (stream : Bytes) : Option (List Bytes) := scan none stream

/-! ### Line breaks -/

/-- Line breaks as they are read: each as one line feed. -/
def eolFrom : Bool → Bytes → Bytes
  | _, [] => []
  | afterReturn, c :: b =>
    if c = 10 ∧ afterReturn = true then eolFrom false b
    else if c = 13 then 10 :: eolFrom true b
    else c :: eolFrom false b

def eol (b : Bytes) : Bytes := eolFrom false b

/-- Line breaks are read as they stand exactly when there is no carriage return. -/
theorem eol_eq_self_iff (b : Bytes) : eol b = b ↔ 13 ∉ b := by
  show eolFrom false b = b ↔ 13 ∉ b
  induction b with
  | nil => exact ⟨fun _ ↦ List.not_mem_nil, fun _ ↦ rfl⟩
  | cons c b ih =>
    rw [eolFrom, if_neg (by simp)]
    by_cases hc : c = 13
    · subst hc
      rw [if_pos rfl]
      refine ⟨fun h ↦ ?_, fun h ↦ absurd List.mem_cons_self h⟩
      exact absurd (List.cons.inj h).1 (by decide)
    · rw [if_neg hc, List.cons.injEq, List.mem_cons, not_or, ih]
      exact ⟨fun h ↦ ⟨Ne.symm hc, h.2⟩, fun h ↦ ⟨rfl, h.2⟩⟩

/-! ### Writing -/

/-- A backslash in front of every backslash and parenthesis. -/
def escaped (b : Bytes) : Bytes := b.flatMap fun c ↦ if c = 92 ∨ c = 40 ∨ c = 41 then [92, c] else [c]

/-- The mode of a string after a carriage return, or after something else. -/
def modeAfter (afterReturn : Bool) : Mode := if afterReturn then .afterReturn else .plain

/-- After a carriage return a byte other than a line feed is read as anywhere. -/
theorem step_modeAfter (afterReturn : Bool) (depth : ℕ) (bytes : Bytes) {c : UInt8}
    (h : ¬(c = 10 ∧ afterReturn = true)) :
    step ⟨modeAfter afterReturn, depth, bytes⟩ c = plainStep depth bytes c := by
  cases afterReturn with
  | false => rfl
  | true =>
    have hc : c ≠ 10 := fun hc ↦ h ⟨hc, rfl⟩
    show (if c = 10 then Sum.inr _ else plainStep depth bytes c) = _
    exact if_neg hc

/-- A byte that is not special. -/
theorem plainStep_of_ordinary (depth : ℕ) (bytes : Bytes) {c : UInt8}
    (h : c ≠ 92 ∧ c ≠ 40 ∧ c ≠ 41) :
    plainStep depth bytes c = if c = 13 then .inr ⟨.afterReturn, depth, bytes ++ [10]⟩
      else .inr ⟨.plain, depth, bytes ++ [c]⟩ := by
  unfold plainStep
  rw [if_neg h.2.1, if_neg h.2.2, if_neg h.1]

/-- One escaped byte, and the bytes it is read as. -/
theorem scan_escaped_cons (afterReturn : Bool) (depth : ℕ) (bytes : Bytes) (c : UInt8)
    (b rest : Bytes) :
    scan (some ⟨modeAfter afterReturn, depth, bytes⟩) (escaped (c :: b) ++ rest) =
      if c = 10 ∧ afterReturn = true then scan (some ⟨.plain, depth, bytes⟩) (escaped b ++ rest)
      else if c = 13 then scan (some ⟨.afterReturn, depth, bytes ++ [10]⟩) (escaped b ++ rest)
      else scan (some ⟨.plain, depth, bytes ++ [c]⟩) (escaped b ++ rest) := by
  rw [escaped, List.flatMap_cons, List.append_assoc, ← escaped]
  by_cases hspecial : c = 92 ∨ c = 40 ∨ c = 41
  · -- a backslash, and the byte for itself
    have h10 : c ≠ 10 := by rintro rfl; exact absurd hspecial (by decide)
    have h13 : c ≠ 13 := by rintro rfl; exact absurd hspecial (by decide)
    have hself : step ⟨.escape, depth, bytes⟩ c = .inr ⟨.plain, depth, bytes ++ [c]⟩ := by
      rcases hspecial with rfl | rfl | rfl <;> rfl
    rw [if_pos hspecial, if_neg fun h ↦ h10 h.1, if_neg h13, List.cons_append, scan,
      step_modeAfter afterReturn depth bytes (by rintro ⟨h, -⟩; exact absurd h (by decide))]
    show scan (some ⟨.escape, depth, bytes⟩) (c :: ([] ++ _)) = _
    rw [scan, hself]
    rfl
  · simp only [not_or] at hspecial
    rw [if_neg (by simpa only [not_or] using hspecial), List.cons_append, List.nil_append, scan]
    by_cases hlf : c = 10 ∧ afterReturn = true
    · obtain ⟨rfl, rfl⟩ := hlf
      rfl
    · rw [if_neg hlf, step_modeAfter afterReturn depth bytes hlf,
        plainStep_of_ordinary depth bytes hspecial]
      by_cases h13 : c = 13
      · rw [if_pos h13, if_pos h13]
      · rw [if_neg h13, if_neg h13]

/-- An escaped string, closed, is read with its line breaks as line feeds; what follows is read on. -/
theorem scan_escaped (afterReturn : Bool) (bytes b rest : Bytes) :
    scan (some ⟨modeAfter afterReturn, 0, bytes⟩) (escaped b ++ 41 :: rest) =
      (scan none rest).map ((bytes ++ eolFrom afterReturn b) :: ·) := by
  induction b generalizing afterReturn bytes with
  | nil =>
    have hclose : step ⟨modeAfter afterReturn, 0, bytes⟩ 41 = .inl bytes :=
      step_modeAfter afterReturn 0 bytes (by rintro ⟨h, -⟩; exact absurd h (by decide))
    show scan (some ⟨modeAfter afterReturn, 0, bytes⟩) (41 :: rest) = _
    rw [scan, hclose, eolFrom, List.append_nil]
  | cons c b ih =>
    rw [scan_escaped_cons, eolFrom]
    by_cases hlf : c = 10 ∧ afterReturn = true
    · rw [if_pos hlf, if_pos hlf]
      exact ih false bytes
    · rw [if_neg hlf, if_neg hlf]
      by_cases h13 : c = 13
      · rw [if_pos h13, if_pos h13]
        refine (ih true (bytes ++ [10])).trans ?_
        rw [List.append_assoc]
        rfl
      · rw [if_neg h13, if_neg h13]
        refine (ih false (bytes ++ [c])).trans ?_
        rw [List.append_assoc]
        rfl

/-- Outside of strings. -/
theorem scan_skip {b : Bytes} (h : 40 ∉ b) (rest : Bytes) : scan none (b ++ rest) = scan none rest := by
  induction b with
  | nil => rfl
  | cons c b ih =>
    rw [List.mem_cons, not_or] at h
    rw [List.cons_append, scan, if_neg (Ne.symm h.1), ih h.2]

/-- A string between its parentheses. -/
theorem scan_string (b rest : Bytes) :
    scan none (40 :: (escaped b ++ 41 :: rest)) = (scan none rest).map (eol b :: ·) :=
  scan_escaped false [] b rest

end LiteralString
