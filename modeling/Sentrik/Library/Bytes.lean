import Mathlib.Algebra.GroupWithZero.Nat
import Mathlib.Algebra.Group.Nat.Defs
import Sentrik.Library.Text

/-!
# Bytes

A file is a list of bytes. `At` says which part stands at a position, and `LineAt` which line does; both
are found again after a file was put together from parts, and the parts of a table of one width stand at
the multiples of that width. Text becomes bytes by UTF-8, or by Latin-1 with a question mark for what
Latin-1 lacks; ASCII text becomes the same bytes either way. Numbers are written in decimal, with leading
zeros up to a width where a table needs one.
-/

/-- A file, or a part of one. -/
abbrev Bytes := List UInt8

namespace Text

/-- UTF-8. -/
def utf8 (t : Text) : Bytes := t.flatMap String.utf8EncodeChar

/-- Latin-1, with a question mark for every character that it lacks. -/
def latin1 (t : Text) : Bytes := t.map fun c ↦ if c.toNat < 256 then UInt8.ofNat c.toNat else 63

/-- The digits of a number. -/
def decimal (n : ℕ) : Text := Nat.toDigits 10 n

/-- The digits of a number, with zeros in front up to a width. -/
def padded (w n : ℕ) : Text := List.replicate (w - (decimal n).length) '0' ++ decimal n

@[simp] theorem utf8_nil : utf8 [] = [] := rfl

@[simp] theorem utf8_append (s t : Text) : utf8 (s ++ t) = utf8 s ++ utf8 t := List.flatMap_append

@[simp] theorem latin1_append (s t : Text) : latin1 (s ++ t) = latin1 s ++ latin1 t := List.map_append

@[simp] theorem length_latin1 (t : Text) : (latin1 t).length = t.length := List.length_map _

/-- ASCII text is one byte a character. -/
theorem utf8_of_ascii {t : Text} (h : ∀ c ∈ t, c.toNat < 128) :
    utf8 t = t.map fun c ↦ UInt8.ofNat c.toNat := by
  induction t with
  | nil => rfl
  | cons c t ih =>
    have hc : c.val.toNat ≤ 127 := by
      have hlt : c.toNat < 128 := h c List.mem_cons_self
      show c.toNat ≤ 127
      omega
    have hchar : String.utf8EncodeChar c = [UInt8.ofNat c.toNat] := if_pos hc
    rw [utf8, List.flatMap_cons, hchar, List.map_cons]
    exact congrArg _ (ih fun d hd ↦ h d (List.mem_cons_of_mem c hd))

theorem isDigit_of_mem_decimal {n : ℕ} {c : Char} (h : c ∈ decimal n) : c.isDigit = true :=
  Nat.isDigit_of_mem_toDigits (by decide) (by decide) h

theorem isDigit_of_mem_padded {w n : ℕ} {c : Char} (h : c ∈ padded w n) : c.isDigit = true := by
  rcases List.mem_append.1 h with h | h
  · rw [List.eq_of_mem_replicate h]
    rfl
  · exact isDigit_of_mem_decimal h

/-- A number below a power of ten fills the width exactly. -/
theorem length_padded {w n : ℕ} (hw : 0 < w) (h : n < 10 ^ w) : (padded w n).length = w := by
  have hle : (decimal n).length ≤ w := (Nat.length_toDigits_le_iff (by decide) hw).2 h
  rw [padded, List.length_append, List.length_replicate]
  omega

/-- Leading zeros do not change the number. -/
@[simp] theorem ofDigitChars_padded (w n : ℕ) : Nat.ofDigitChars 10 (padded w n) 0 = n := by
  rw [padded, Nat.ofDigitChars_append, Nat.ofDigitChars_replicate_zero, Nat.mul_zero]
  exact Nat.ofDigitChars_ten_toDigits

theorem decimal_injective : Function.Injective decimal := by
  intro m n h
  have hread : Nat.ofDigitChars 10 (decimal m) 0 = Nat.ofDigitChars 10 (decimal n) 0 := by rw [h]
  rwa [decimal, decimal, Nat.ofDigitChars_ten_toDigits, Nat.ofDigitChars_ten_toDigits] at hread

theorem ascii_of_isDigit {c : Char} (h : c.isDigit = true) : c.toNat < 128 := by
  simp only [Char.isDigit, ge_iff_le, Bool.and_eq_true, decide_eq_true_eq] at h
  have hle := UInt32.le_iff_toNat_le.1 h.2
  show c.val.toNat < 128
  have hnine : ('9' : Char).val.toNat = 57 := rfl
  omega

end Text

namespace Bytes

/-! ### Reading numbers -/

/-- Bytes, each as the character of its number. -/
def chars (b : Bytes) : Text := b.map fun x ↦ Char.ofNat x.toNat

/-- The number that a run of digits writes; nothing else is read. -/
def decimal? (b : Bytes) : Option ℕ :=
  if b.chars.all Char.isDigit then some (Nat.ofDigitChars 10 b.chars 0) else none

theorem chars_utf8 {t : Text} (h : ∀ c ∈ t, c.toNat < 128) : chars t.utf8 = t := by
  rw [Text.utf8_of_ascii h, chars, List.map_map]
  refine (List.map_congr_left fun c hc ↦ ?_).trans (List.map_id t)
  have hlt := h c hc
  have hbyte : (UInt8.ofNat c.toNat).toNat = c.toNat := by
    rw [UInt8.toNat_ofNat']
    omega
  show Char.ofNat (UInt8.ofNat c.toNat).toNat = c
  rw [hbyte, Char.ofNat_toNat]

/-- A number written with leading zeros is read back. -/
theorem decimal?_padded (w n : ℕ) : decimal? (Text.padded w n).utf8 = some n := by
  have hascii : ∀ c ∈ Text.padded w n, c.toNat < 128 := fun c hc ↦
    Text.ascii_of_isDigit (Text.isDigit_of_mem_padded hc)
  have hall : (Text.padded w n).all Char.isDigit = true :=
    List.all_eq_true.2 fun c hc ↦ Text.isDigit_of_mem_padded hc
  rw [decimal?, chars_utf8 hascii, if_pos hall, Text.ofDigitChars_padded]

theorem length_utf8_padded {w n : ℕ} (hw : 0 < w) (h : n < 10 ^ w) :
    (Text.padded w n).utf8.length = w := by
  rw [Text.utf8_of_ascii fun c hc ↦ Text.ascii_of_isDigit (Text.isDigit_of_mem_padded hc),
    List.length_map, Text.length_padded hw h]

/-! ### Reading text -/

/-- The text that is written so in UTF-8, if there is one. -/
def utf8? (b : Bytes) : Option Text := b.toByteArray.utf8Decode?.map Array.toList

/-- What is read as UTF-8 is written back as it was. -/
theorem utf8_of_utf8? {b : Bytes} {t : Text} (h : utf8? b = some t) : t.utf8 = b := by
  obtain ⟨a, ha, rfl⟩ := Option.map_eq_some_iff.1 h
  have hsome : b.toByteArray.utf8Decode?.isSome = true := by rw [ha]; rfl
  have hget : b.toByteArray.utf8Decode?.get hsome = a := Option.get_of_eq_some hsome ha
  have hencode := ByteArray.utf8Encode_get_utf8Decode? (b := b.toByteArray) (h := hsome)
  rw [hget, List.utf8Encode] at hencode
  have hbytes := congrArg (fun a : ByteArray ↦ a.data.toList) hencode
  rw [List.toList_data_toByteArray, List.toList_data_toByteArray] at hbytes
  exact hbytes

/-! ### What stands where -/

/-- The part stands at a position of the file. -/
def At (file : Bytes) (pos : ℕ) (part : Bytes) : Prop :=
  ∃ before after, file = before ++ part ++ after ∧ before.length = pos

/-- The line stands at a position of the file: the file or a line begins there, and what follows up to
its line feed is this line. -/
def LineAt (file : Bytes) (pos : ℕ) (line : Bytes) : Prop :=
  10 ∉ line ∧ ∃ before after, file = before ++ line ++ 10 :: after ∧ before.length = pos ∧
    (before = [] ∨ before.getLast? = some 10)

theorem at_intro (before part after : Bytes) : At (before ++ part ++ after) before.length part :=
  ⟨before, after, rfl, rfl⟩

/-- What a part begins with stands where the part does. -/
theorem At.left {file part rest : Bytes} {pos : ℕ} (h : At file pos (part ++ rest)) :
    At file pos part := by
  obtain ⟨before, after, rfl, hpos⟩ := h
  exact ⟨before, rest ++ after, by simp only [List.append_assoc], hpos⟩

/-- A part of a part. -/
theorem At.inner {file part inner : Bytes} {pos off : ℕ} (h : At file pos part)
    (hin : At part off inner) : At file (pos + off) inner := by
  obtain ⟨before, after, rfl, rfl⟩ := h
  obtain ⟨before', after', rfl, rfl⟩ := hin
  exact ⟨before ++ before', after' ++ after, by simp only [List.append_assoc], List.length_append⟩

/-- One of the parts that a file was put together from. -/
theorem at_flatten (parts : List Bytes) {k : ℕ} {part : Bytes} (h : parts[k]? = some part) :
    At parts.flatten ((parts.take k).map List.length).sum part := by
  obtain ⟨hk, rfl⟩ := List.getElem?_eq_some_iff.1 h
  have hsplit : parts.flatten =
      (parts.take k).flatten ++ parts[k] ++ (parts.drop (k + 1)).flatten := by
    conv_lhs => rw [← List.take_append_drop k parts, List.drop_eq_getElem_cons hk]
    rw [List.flatten_append, List.flatten_cons, List.append_assoc]
  exact ⟨_, _, hsplit, List.length_flatten⟩

/-- In a table of one width, the rows stand at the multiples of the width. -/
theorem at_table {parts : List Bytes} {w : ℕ} (hw : ∀ part ∈ parts, part.length = w) {k : ℕ}
    {part : Bytes} (h : parts[k]? = some part) : At parts.flatten (w * k) part := by
  obtain ⟨hk, -⟩ := List.getElem?_eq_some_iff.1 h
  have hsum : ((parts.take k).map List.length).sum = w * k := by
    have hconst : (parts.take k).map List.length = List.replicate k w := by
      refine List.eq_replicate_iff.2 ⟨?_, ?_⟩
      · rw [List.length_map, List.length_take]
        omega
      · intro b hb
        obtain ⟨row, hrow, rfl⟩ := List.mem_map.1 hb
        exact hw row (List.mem_of_mem_take hrow)
    rw [hconst, List.sum_replicate_nat, Nat.mul_comm]
  rw [← hsum]
  exact at_flatten parts h

end Bytes
