import Sentrik.Discovery.Forms
import Sentrik.Library.Markers

/-!
# Redaction of texts

Four patterns are replaced by markers, one after the other: card numbers and e-mail addresses between word
boundaries, then tokens and keys wherever they stand. A marker begins and ends with a bracket, which is no
character of a word; so a card number that touched a token has a boundary as soon as the token is replaced, when
the pattern of card numbers has had its turn (`card_beside_token`).

`redact_text_clean_iff` says when this happens: exactly when a card number or an address begins or ends one of
the fragments that the four patterns leave. Tokens and keys never remain, whatever the text is
(`searchFrom_token`).
-/

namespace Sentrik

open Regex

variable [w : WordTables] [d : DigitTables]

/-! ### The patterns -/

/-- `\d{13,19}`. -/
def digitRun : Regex := between d.isDecimal 13 19

/-- `[A-Za-z0-9._-]+@[A-Za-z0-9.-]+\.[A-Za-z]{2,}`. -/
def address : Regex := all [
  plus (fun c ↦ c.isAlphanum || c == '.' || c == '_' || c == '-') true, char (· == '@'),
  plus (fun c ↦ c.isAlphanum || c == '.' || c == '-') true, char (· == '.'), atLeast Char.isAlpha 2]

/-- A run of digits between word boundaries. -/
def PAN : Regex := bounded isWord digitRun

/-- An address between word boundaries. -/
def EMAIL : Regex := bounded isWord address

def isTokenChar (c : Char) : Bool := c.isAlphanum || c == '_' || c == '-'

/-- `eyJ[A-Za-z0-9_-]{10,}\.[A-Za-z0-9_-]{10,}\.[A-Za-z0-9_-]{5,}`. -/
def JWT : Regex := all [text "eyJ".toList, atLeast isTokenChar 10, char (· == '.'), atLeast isTokenChar 10,
  char (· == '.'), atLeast isTokenChar 5]

/-- `sk_[a-f0-9]{8}_[A-Za-z0-9_-]{20,}`. -/
def APIKEY : Regex := all [text "sk_".toList, times (fun c ↦ 'a' ≤ c && c ≤ 'f' || Text.isDigit c) 8,
  char (· == '_'), atLeast isTokenChar 20]

def _PATTERNS : List (Regex × Text) := [
  (PAN, "[REDACTED_PAN]".toList),
  (EMAIL, "[REDACTED_EMAIL]".toList),
  (JWT, "[REDACTED_JWT]".toList),
  (APIKEY, "[REDACTED_APIKEY]".toList)]

def redact_text (text : Option Text) : Text :=
  match text with
  | none => []
  | some text =>
    if text = [] then []
    else _PATTERNS.foldl (fun red x ↦ substitute x.1 [.text x.2] red) text

/-! ### What the patterns ask for -/

/-- Of ASCII, the digit table says what ASCII says. -/
class LawfulDigitTables [d : DigitTables] : Prop where
  isDecimal_ascii : ∀ {c : Char}, c.toNat < 128 → d.isDecimal c = Text.isDigit c

instance : @LawfulDigitTables asciiDigits := @LawfulDigitTables.mk asciiDigits fun _ ↦ rfl

omit w in
theorem noEdge_digitRun : NoEdge digitRun := noEdge_between _ 13 19

omit w d in
theorem noEdge_address : NoEdge address :=
  ⟨⟨trivial, trivial⟩, trivial, ⟨trivial, trivial⟩, trivial, noEdge_atLeast _ 2, trivial⟩

omit w d in
theorem noEdge_JWT : NoEdge JWT :=
  ⟨noEdge_text _, noEdge_atLeast _ 10, trivial, noEdge_atLeast _ 10, trivial, noEdge_atLeast _ 5, trivial⟩

omit w d in
theorem noEdge_APIKEY : NoEdge APIKEY :=
  ⟨noEdge_text _, noEdge_times _ 8, trivial, noEdge_atLeast _ 20, trivial⟩

omit w in
theorem requires_digitRun : Requires d.isDecimal digitRun := Or.inl (Or.inl fun _ hc ↦ hc)

omit w d in
theorem requires_address : Requires (· == '@') address := Or.inr (Or.inl fun _ hc ↦ hc)

omit w d in
theorem requires_JWT : Requires (· == 'e') JWT := Or.inl (Or.inl fun _ hc ↦ hc)

omit w d in
theorem requires_APIKEY : Requires (· == 's') APIKEY := Or.inl (Or.inl fun _ hc ↦ hc)

omit w d in
theorem capitals_of_all {name : Text} (h : name.all (fun c ↦ c.isUpper || c == '_') = true) :
    ∀ c ∈ name, c.isUpper = true ∨ c = '_' := by
  intro c hc
  have hor := List.all_eq_true.1 h c hc
  rw [Bool.or_eq_true, beq_iff_eq] at hor
  exact hor

/-- The markers are names of capital letters in brackets. -/
theorem marker_of_mem {y : Regex × Text} (hy : y ∈ _PATTERNS) :
    ∃ name : Text, y.2 = '[' :: (name ++ [']']) ∧ ∀ c ∈ name, c.isUpper = true ∨ c = '_' := by
  simp only [_PATTERNS, List.mem_cons, List.not_mem_nil, or_false] at hy
  rcases hy with rfl | rfl | rfl | rfl
  · exact ⟨"REDACTED_PAN".toList, rfl, capitals_of_all (by decide)⟩
  · exact ⟨"REDACTED_EMAIL".toList, rfl, capitals_of_all (by decide)⟩
  · exact ⟨"REDACTED_JWT".toList, rfl, capitals_of_all (by decide)⟩
  · exact ⟨"REDACTED_APIKEY".toList, rfl, capitals_of_all (by decide)⟩

omit w d in
theorem toNat_lt_of_capital {c : Char} (h : c.isUpper = true ∨ c = '_') : c.toNat < 128 ∧ Text.isDigit c = false := by
  rcases h with hupper | rfl
  · obtain ⟨hlo, hhi⟩ := of_decide_eq_true hupper
    have hle : c.toNat ≤ 90 := hhi
    have hge : 65 ≤ c.toNat := hlo
    have hdigit : ¬c ≤ '9' := fun h ↦ by
      have hnine : c.toNat ≤ 57 := h
      omega
    refine ⟨by omega, ?_⟩
    rw [Text.isDigit, decide_eq_false hdigit, Bool.and_false]
  · exact ⟨by decide, by decide⟩

section

variable [Discovery.LawfulWordTables] [LawfulDigitTables]

omit d [LawfulDigitTables] in
theorem isWord_bracket {c : Char} (h : c = '[' ∨ c = ']') : isWord c = false := by
  have hascii : c.toNat < 128 ∧ c.isAlphanum = false ∧ (c == '_') = false := by
    rcases h with rfl | rfl <;> decide
  rw [isWord, Discovery.LawfulWordTables.isAlnum_ascii hascii.1, hascii.2.1, hascii.2.2]
  rfl

omit w [Discovery.LawfulWordTables] in
theorem isDecimal_bracket {c : Char} (h : c = '[' ∨ c = ']') : d.isDecimal c = false := by
  have hascii : c.toNat < 128 ∧ Text.isDigit c = false := by
    rcases h with rfl | rfl <;> decide
  rw [LawfulDigitTables.isDecimal_ascii hascii.1, hascii.2]

theorem avoids_of_mem {x : Regex × Text} (hx : x ∈ _PATTERNS) {c : Char} (hc : c = '[' ∨ c = ']') :
    Avoids c x.1 := by
  have htoken : isTokenChar c = false := by rcases hc with rfl | rfl <;> decide
  have hbracket : c ∉ "eyJ".toList ∧ c ∉ "sk_".toList ∧ (c == '.') = false ∧ (c == '@') = false ∧
      (c == '_') = false ∧ ('a' ≤ c && c ≤ 'f' || Text.isDigit c) = false ∧ c.isAlpha = false ∧
      (c.isAlphanum || c == '.' || c == '_' || c == '-') = false ∧
      (c.isAlphanum || c == '.' || c == '-') = false := by
    rcases hc with rfl | rfl <;> decide
  obtain ⟨hjwt, hkey, hdot, hat, hunderscore, hhex, halpha, hlocal, hdomain⟩ := hbracket
  simp only [_PATTERNS, List.mem_cons, List.not_mem_nil, or_false] at hx
  rcases hx with rfl | rfl | rfl | rfl
  · exact avoids_bounded (isWord_bracket hc) (avoids_between (isDecimal_bracket hc) 13 19)
  · exact avoids_bounded (isWord_bracket hc)
      ⟨⟨hlocal, hlocal⟩, hat, ⟨hdomain, hdomain⟩, hdot, avoids_atLeast halpha 2, trivial⟩
  · exact ⟨avoids_text hjwt, avoids_atLeast htoken 10, hdot, avoids_atLeast htoken 10, hdot,
      avoids_atLeast htoken 5, trivial⟩
  · exact ⟨avoids_text hkey, avoids_times hhex 8, hunderscore, avoids_atLeast htoken 20, trivial⟩

omit [Discovery.LawfulWordTables] in
/-- Every match has a character that is neither a capital letter nor an underscore. -/
theorem requires_of_mem {x : Regex × Text} (hx : x ∈ _PATTERNS) :
    ∃ p, Requires p x.1 ∧ ∀ c : Char, c.isUpper = true ∨ c = '_' → p c = false := by
  have hother : ∀ e : Char, e.isUpper = false → e ≠ '_' → ∀ c : Char, c.isUpper = true ∨ c = '_' →
      (c == e) = false := by
    rintro e he hunderscore c (hc | rfl)
    · refine beq_eq_false_iff_ne.2 fun heq ↦ ?_
      rw [← heq, hc] at he
      cases he
    · exact beq_eq_false_iff_ne.2 hunderscore.symm
  simp only [_PATTERNS, List.mem_cons, List.not_mem_nil, or_false] at hx
  rcases hx with rfl | rfl | rfl | rfl
  · refine ⟨d.isDecimal, Or.inr (Or.inl requires_digitRun), fun c hc ↦ ?_⟩
    obtain ⟨hlt, hdigit⟩ := toNat_lt_of_capital hc
    rw [LawfulDigitTables.isDecimal_ascii hlt, hdigit]
  · exact ⟨_, Or.inr (Or.inl requires_address), hother '@' (by decide) (by decide)⟩
  · exact ⟨_, requires_JWT, hother 'e' (by decide) (by decide)⟩
  · exact ⟨_, requires_APIKEY, hother 's' (by decide) (by decide)⟩

/-- **No match meets a marker**, whichever pattern and whichever marker it is. -/
theorem clear_of_mem {x y : Regex × Text} (hx : x ∈ _PATTERNS) (hy : y ∈ _PATTERNS) : Clear x.1 y.2 := by
  obtain ⟨name, hmarker, hname⟩ := marker_of_mem hy
  obtain ⟨p, hrequires, hp⟩ := requires_of_mem hx
  exact clear_of_requires hmarker (avoids_of_mem hx (Or.inl rfl)) (avoids_of_mem hx (Or.inr rfl)) hrequires
    fun c hc ↦ hp c (hname c hc)

/-! ### What remains -/

omit [Discovery.LawfulWordTables] [LawfulDigitTables] in
theorem redact_text_some (text : Text) : redact_text (some text) = substituteAll _PATTERNS text := by
  rw [redact_text]
  split
  · next hnil =>
    rw [hnil]
    rfl
  · rfl

/-- A pattern is found in the redacted text exactly when it is found in a fragment, read by itself. -/
theorem searchFrom_redact_text {x : Regex × Text} (hx : x ∈ _PATTERNS) (text : Text) :
    searchFrom x.1 none (redact_text (some text)) = none ↔
      ∀ q ∈ fragments (_PATTERNS.map Prod.fst) text, ¬HasMatch x.1 q := by
  rw [redact_text_some, searchFrom_substituteAll (fun y hy ↦ clear_of_mem hx hy) fun y hy z hz ↦
    clear_of_mem hy hz]
  exact forall₂_congr fun q _ ↦ searchFrom_eq_none_iff_hasMatch (clear_of_mem hx hx).inner

end

/-- A fragment lies in a piece that the numbers and the addresses leave; the tokens leave the fragments of it, and
the keys leave those of these. -/
theorem mem_fragments {q text : Text} (hq : q ∈ fragments (_PATTERNS.map Prod.fst) text) :
    ∃ a ∈ cut PAN text, ∃ b ∈ cut EMAIL a, ∃ c ∈ cut JWT b, q ∈ cut APIKEY c := by
  obtain ⟨a, ha, hqa⟩ := List.mem_flatMap.1 hq
  obtain ⟨b, hb, hqb⟩ := List.mem_flatMap.1 hqa
  obtain ⟨c, hc, hqc⟩ := List.mem_flatMap.1 hqb
  obtain ⟨e, he, hqe⟩ := List.mem_flatMap.1 hqc
  obtain rfl := List.mem_singleton.1 hqe
  exact ⟨a, ha, b, hb, c, hc, he⟩

/-- Read by itself, a piece between numbers and addresses has neither. -/
theorem not_hasMatch_piece {text a b : Text} (ha : a ∈ cut PAN text) (hb : b ∈ cut EMAIL a) :
    ¬HasMatch PAN b ∧ ¬HasMatch EMAIL b := by
  constructor
  · intro hb'
    exact not_hasMatch_of_mem_cut_bounded noEdge_digitRun requires_digitRun.nonEmpty ha
      (hasMatch_of_mem_cut_bounded noEdge_address requires_address.nonEmpty noEdge_digitRun
        requires_digitRun.nonEmpty hb hb')
  · exact not_hasMatch_of_mem_cut_bounded noEdge_address requires_address.nonEmpty hb

/-- Tokens and keys ask for no edge, so none is left in a fragment. -/
theorem not_hasMatch_token {q text : Text} (hq : q ∈ fragments (_PATTERNS.map Prod.fst) text) :
    ¬HasMatch JWT q ∧ ¬HasMatch APIKEY q := by
  obtain ⟨a, -, b, -, c, hc, hqc⟩ := mem_fragments hq
  constructor
  · intro hq'
    exact noEdge_JWT.not_hasMatch_of_mem_cut requires_JWT.nonEmpty hc
      (noEdge_JWT.hasMatch_of_mem_cut noEdge_APIKEY.inner requires_APIKEY.nonEmpty hqc hq')
  · exact noEdge_APIKEY.not_hasMatch_of_mem_cut requires_APIKEY.nonEmpty hqc

/-- What is left of the other two patterns touches an end of its fragment. -/
theorem touches_of_hasMatch {r : Regex} (hr : r = PAN ∨ r = EMAIL) {q text : Text}
    (hq : q ∈ fragments (_PATTERNS.map Prod.fst) text) (hmatch : HasMatch r q) : Touches r q := by
  obtain ⟨a, ha, b, hb, c, hc, hqc⟩ := mem_fragments hq
  refine (hasMatch_iff_touches_or.1 hmatch).resolve_right fun hinner ↦ ?_
  -- with something on both sides, it is in the piece already
  have hpiece : HasMatch r b := ((hinner.of_mem_cut noEdge_APIKEY.inner requires_APIKEY.nonEmpty hqc).of_mem_cut
    noEdge_JWT.inner requires_JWT.nonEmpty hc).hasMatch
  obtain ⟨hPAN, hEMAIL⟩ := not_hasMatch_piece ha hb
  rcases hr with rfl | rfl
  · exact hPAN hpiece
  · exact hEMAIL hpiece

section

variable [Discovery.LawfulWordTables] [LawfulDigitTables]

/-- **Tokens and keys** never remain. -/
theorem searchFrom_token (text : Text) : searchFrom JWT none (redact_text (some text)) = none ∧
    searchFrom APIKEY none (redact_text (some text)) = none := by
  have hJWT : (JWT, "[REDACTED_JWT]".toList) ∈ _PATTERNS := .tail _ (.tail _ (.head _))
  have hAPIKEY : (APIKEY, "[REDACTED_APIKEY]".toList) ∈ _PATTERNS := .tail _ (.tail _ (.tail _ (.head _)))
  exact ⟨(searchFrom_redact_text hJWT text).2 fun q hq ↦ (not_hasMatch_token hq).1,
    (searchFrom_redact_text hAPIKEY text).2 fun q hq ↦ (not_hasMatch_token hq).2⟩

/-- A text without a match is redacted to itself. -/
theorem redact_text_of_clean {text : Text} (h : ∀ x ∈ _PATTERNS, searchFrom x.1 none text = none) :
    redact_text (some text) = text := by
  rw [redact_text_some]
  exact substituteAll_of_searchFrom fun x hx ↦ ⟨(clear_of_mem hx hx).inner, h x hx⟩

/-- The patterns find nothing in a redacted text exactly when no card number and no address begins or ends a
fragment. -/
theorem searchFrom_redact_text_iff (text : Text) :
    (∀ x ∈ _PATTERNS, searchFrom x.1 none (redact_text (some text)) = none) ↔
      ∀ q ∈ fragments (_PATTERNS.map Prod.fst) text, ¬Touches PAN q ∧ ¬Touches EMAIL q := by
  have hPAN : (PAN, "[REDACTED_PAN]".toList) ∈ _PATTERNS := .head _
  have hEMAIL : (EMAIL, "[REDACTED_EMAIL]".toList) ∈ _PATTERNS := .tail _ (.head _)
  constructor
  · intro hclean q hq
    exact ⟨fun h ↦ (searchFrom_redact_text hPAN text).1 (hclean _ hPAN) q hq (hasMatch_iff_touches_or.2 (Or.inl h)),
      fun h ↦ (searchFrom_redact_text hEMAIL text).1 (hclean _ hEMAIL) q hq
        (hasMatch_iff_touches_or.2 (Or.inl h))⟩
  · intro htouches x hx
    obtain ⟨hJWT, hAPIKEY⟩ := searchFrom_token text
    have hx' := hx
    simp only [_PATTERNS, List.mem_cons, List.not_mem_nil, or_false] at hx'
    rcases hx' with rfl | rfl | rfl | rfl
    · exact (searchFrom_redact_text hx text).2 fun q hq hmatch ↦
        (htouches q hq).1 (touches_of_hasMatch (Or.inl rfl) hq hmatch)
    · exact (searchFrom_redact_text hx text).2 fun q hq hmatch ↦
        (htouches q hq).2 (touches_of_hasMatch (Or.inr rfl) hq hmatch)
    · exact hJWT
    · exact hAPIKEY

/-- **The exact condition** for a redacted text to have nothing that the patterns match, and to be redacted to
itself: no card number and no address begins or ends one of the fragments that the patterns leave. -/
theorem redact_text_clean_iff (text : Text) :
    (∀ x ∈ _PATTERNS, searchFrom x.1 none (redact_text (some text)) = none) ∧
        redact_text (some (redact_text (some text))) = redact_text (some text) ↔
      ∀ q ∈ fragments (_PATTERNS.map Prod.fst) text, ¬Touches PAN q ∧ ¬Touches EMAIL q := by
  rw [← searchFrom_redact_text_iff]
  exact and_iff_left_of_imp redact_text_of_clean

/-- A text without tokens and keys is redacted once and for all. -/
theorem redact_text_clean_of_no_token {text : Text} (hJWT : searchFrom JWT none text = none)
    (hAPIKEY : searchFrom APIKEY none text = none) :
    ∀ x ∈ _PATTERNS, searchFrom x.1 none (redact_text (some text)) = none := by
  refine (searchFrom_redact_text_iff text).2 fun q hq ↦ ?_
  obtain ⟨a, ha, b, hb, c, hc, hqc⟩ := mem_fragments hq
  -- what a piece has, the text has
  have hpiece : ∀ {r : Regex}, NoEdge r → searchFrom r none text = none → searchFrom r none b = none := by
    intro r hr hnone
    rw [searchFrom_eq_none_iff_hasMatch hr.inner] at hnone ⊢
    exact fun hmatch ↦ hnone (hr.hasMatch_of_mem_cut (inner_bounded noEdge_digitRun)
      (nonEmpty_bounded requires_digitRun.nonEmpty) ha (hr.hasMatch_of_mem_cut (inner_bounded noEdge_address)
        (nonEmpty_bounded requires_address.nonEmpty) hb hmatch))
  rw [cut_of_searchFrom noEdge_JWT.inner (hpiece noEdge_JWT hJWT)] at hc
  obtain rfl := List.mem_singleton.1 hc
  rw [cut_of_searchFrom noEdge_APIKEY.inner (hpiece noEdge_APIKEY hAPIKEY)] at hqc
  obtain rfl := List.mem_singleton.1 hqc
  obtain ⟨hPAN, hEMAIL⟩ := not_hasMatch_piece ha hb
  exact ⟨fun h ↦ hPAN (hasMatch_iff_touches_or.2 (Or.inl h)), fun h ↦ hEMAIL (hasMatch_iff_touches_or.2 (Or.inl h))⟩

end

omit w d in
/-- A card number in front of a token has no boundary behind it until the token is replaced. -/
theorem redact_card_token :
    @redact_text asciiWords asciiDigits (some "1234567890123eyJaaaaaaaaaa.bbbbbbbbbb.ccccc".toList) =
      "1234567890123[REDACTED_JWT]".toList := by
  decide +kernel

omit w d in
theorem redact_card_token_again :
    @redact_text asciiWords asciiDigits (some "1234567890123[REDACTED_JWT]".toList) =
      "[REDACTED_PAN][REDACTED_JWT]".toList := by
  decide +kernel

omit w d in
/-- The number touches an end of its fragment. -/
theorem card_token_touches : ¬∀ q ∈ fragments ((@_PATTERNS asciiWords asciiDigits).map Prod.fst)
      "1234567890123eyJaaaaaaaaaa.bbbbbbbbbb.ccccc".toList,
    ¬Touches (@PAN asciiWords asciiDigits) q ∧ ¬Touches (@EMAIL asciiWords) q := by
  intro h
  have hagain := ((@redact_text_clean_iff asciiWords asciiDigits inferInstance inferInstance
    "1234567890123eyJaaaaaaaaaa.bbbbbbbbbb.ccccc".toList).2 h).2
  rw [redact_card_token, redact_card_token_again] at hagain
  exact absurd hagain (by decide)

omit w d in
/-- A redacted text with a card number in it, which a second redaction replaces. -/
theorem card_beside_token :
    ¬∀ text : Text, (∀ x ∈ @_PATTERNS asciiWords asciiDigits,
        searchFrom x.1 none (@redact_text asciiWords asciiDigits (some text)) = none) ∧
      @redact_text asciiWords asciiDigits (some (@redact_text asciiWords asciiDigits (some text))) =
        @redact_text asciiWords asciiDigits (some text) := by
  intro h
  have hagain := (h "1234567890123eyJaaaaaaaaaa.bbbbbbbbbb.ccccc".toList).2
  rw [redact_card_token, redact_card_token_again] at hagain
  exact absurd hagain (by decide)

end Sentrik
