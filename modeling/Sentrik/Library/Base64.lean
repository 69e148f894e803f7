import Sentrik.Library.Bytes

/-!
# Base64

Three bytes as four characters of an alphabet of sixty-four, six bits each, and equals signs for what is
missing at the end. Reading discards what is not in the alphabet. What was written is read back
(`decode_encode`).
-/

namespace Base64

/-- The character of six bits. -/
def digit (n : ℕ) : Char :=
  if n < 26 then Char.ofNat (65 + n)
  else if n < 52 then Char.ofNat (97 + (n - 26))
  else if n < 62 then Char.ofNat (48 + (n - 52))
  else if n = 62 then '+'
  else '/'

/-- The bits of a character of the alphabet. -/
def digit? (c : Char) : Option ℕ :=
  if 65 ≤ c.toNat ∧ c.toNat ≤ 90 then some (c.toNat - 65)
  else if 97 ≤ c.toNat ∧ c.toNat ≤ 122 then some (c.toNat - 97 + 26)
  else if 48 ≤ c.toNat ∧ c.toNat ≤ 57 then some (c.toNat - 48 + 52)
  else if c = '+' then some 62
  else if c = '/' then some 63
  else none

theorem digit?_digit {n : ℕ} (h : n < 64) : digit? (digit n) = some n := by
  have hall : ∀ m : Fin 64, digit? (digit m) = some m.val := by decide
  exact hall ⟨n, h⟩

/-- No character of the alphabet is an equals sign. -/
theorem digit_ne_pad {n : ℕ} (h : n < 64) : digit n ≠ '=' := by
  have hall : ∀ m : Fin 64, digit m ≠ '=' := by decide
  exact hall ⟨n, h⟩

/-- `base64.b64encode` -/
def encode : Bytes → Text
  | [] => []
  | [a] => [digit (a.toNat / 4), digit (a.toNat % 4 * 16), '=', '=']
  | [a, b] =>
    [digit (a.toNat / 4), digit (a.toNat % 4 * 16 + b.toNat / 16), digit (b.toNat % 16 * 4), '=']
  | a :: b :: c :: rest =>
    digit (a.toNat / 4) :: digit (a.toNat % 4 * 16 + b.toNat / 16) ::
      digit (b.toNat % 16 * 4 + c.toNat / 64) :: digit (c.toNat % 64) :: encode rest

/-- The bytes of full groups of characters, and of the padded one at the end. -/
def decodeGroups : Text → Option Bytes
  | [] => some []
  | c₁ :: c₂ :: c₃ :: c₄ :: rest => do
    let n₁ ← digit? c₁
    let n₂ ← digit? c₂
    if c₃ = '=' then
      return [UInt8.ofNat (n₁ * 4 + n₂ / 16)]
    let n₃ ← digit? c₃
    if c₄ = '=' then
      return [UInt8.ofNat (n₁ * 4 + n₂ / 16), UInt8.ofNat (n₂ % 16 * 16 + n₃ / 4)]
    let n₄ ← digit? c₄
    let bytes ← decodeGroups rest
    return UInt8.ofNat (n₁ * 4 + n₂ / 16) :: UInt8.ofNat (n₂ % 16 * 16 + n₃ / 4) ::
      UInt8.ofNat (n₃ % 4 * 64 + n₄) :: bytes
  | _ => none

/-- `base64.b64decode` -/
def decode (t : Text) : Option Bytes :=
  decodeGroups (t.filter fun c ↦ (digit? c).isSome || c == '=')

theorem digit_kept {n : ℕ} (h : n < 64) : ((digit? (digit n)).isSome || digit n == '=') = true := by
  rw [digit?_digit h]
  rfl

/-- Everything that is written is in the alphabet, or pads. -/
theorem filter_encode (b : Bytes) :
    (encode b).filter (fun c ↦ (digit? c).isSome || c == '=') = encode b := by
  refine List.filter_eq_self.2 ?_
  induction b using encode.induct with
  | case1 => intro c hc; exact absurd hc List.not_mem_nil
  | case2 a =>
    have ha := a.toNat_lt
    intro c hc
    simp only [encode, List.mem_cons, List.not_mem_nil, or_false] at hc
    rcases hc with rfl | rfl | rfl | rfl
    · exact digit_kept (by omega)
    · exact digit_kept (by omega)
    · rfl
    · rfl
  | case3 a b =>
    have ha := a.toNat_lt
    have hb := b.toNat_lt
    intro c hc
    simp only [encode, List.mem_cons, List.not_mem_nil, or_false] at hc
    rcases hc with rfl | rfl | rfl | rfl
    · exact digit_kept (by omega)
    · exact digit_kept (by omega)
    · exact digit_kept (by omega)
    · rfl
  | case4 a b c rest ih =>
    have ha := a.toNat_lt
    have hb := b.toNat_lt
    have hc' := c.toNat_lt
    intro d hd
    simp only [encode, List.mem_cons] at hd
    rcases hd with rfl | rfl | rfl | rfl | hd
    · exact digit_kept (by omega)
    · exact digit_kept (by omega)
    · exact digit_kept (by omega)
    · exact digit_kept (by omega)
    · exact ih d hd

/-- A byte put together from its bits. -/
theorem ofNat_eq {a : UInt8} {n : ℕ} (h : n = a.toNat) : UInt8.ofNat n = a := by
  rw [h, UInt8.ofNat_toNat]

theorem decodeGroups_encode (b : Bytes) : decodeGroups (encode b) = some b := by
  induction b using encode.induct with
  | case1 => rfl
  | case2 a =>
    have ha := a.toNat_lt
    rw [encode, decodeGroups, digit?_digit (by omega), digit?_digit (by omega)]
    show some [UInt8.ofNat _] = some [a]
    rw [ofNat_eq (a := a) (by omega)]
  | case3 a b =>
    have ha := a.toNat_lt
    have hb := b.toNat_lt
    rw [encode, decodeGroups, digit?_digit (by omega), digit?_digit (by omega),
      digit?_digit (by omega)]
    show (if digit (b.toNat % 16 * 4) = '=' then some [UInt8.ofNat _] else
      some [UInt8.ofNat _, UInt8.ofNat _]) = some [a, b]
    rw [if_neg (digit_ne_pad (by omega)), ofNat_eq (a := a) (by omega), ofNat_eq (a := b) (by omega)]
  | case4 a b c rest ih =>
    have ha := a.toNat_lt
    have hb := b.toNat_lt
    have hc := c.toNat_lt
    rw [encode, decodeGroups, digit?_digit (by omega), digit?_digit (by omega),
      digit?_digit (by omega), digit?_digit (by omega), ih]
    show (if digit (b.toNat % 16 * 4 + c.toNat / 64) = '=' then some [UInt8.ofNat _] else
      if digit (c.toNat % 64) = '=' then some [UInt8.ofNat _, UInt8.ofNat _] else
        some (UInt8.ofNat _ :: UInt8.ofNat _ :: UInt8.ofNat _ :: rest)) = some (a :: b :: c :: rest)
    rw [if_neg (digit_ne_pad (by omega)), if_neg (digit_ne_pad (by omega)),
      ofNat_eq (a := a) (by omega), ofNat_eq (a := b) (by omega), ofNat_eq (a := c) (by omega)]

/-- What was written is read back. -/
theorem decode_encode (b : Bytes) : decode (encode b) = some b := by
  rw [decode, filter_encode, decodeGroups_encode]

end Base64
