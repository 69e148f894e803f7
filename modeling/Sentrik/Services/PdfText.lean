import Sentrik.Library.LiteralString
import Sentrik.Library.UrlText
import Sentrik.Services.PdfStructure
import Mathlib.Data.List.TakeWhile

/-!
# The text of a PDF report

Reading the string operands of the content streams gives the lines of the pages back, and the lines of the
pages are those of the text, up to tabs and to white space dropped where a line is cut. Wrapping and
cutting into pages keep this for every text. `_escape` does not: it puts a backslash in front of
backslashes and parentheses and leaves carriage returns as they are, which are read as line feeds. The text
comes back exactly when no carriage return is in a part of a line that wrapping keeps (`lossless_iff`).
-/

namespace PdfReport

/-! ### What is shown of a text -/

/-- A line with its tabs expanded. -/
def expandTabs (line : Text) : Text := replace '\t' "    ".toList line

section

variable [u : UnicodeTables]

/-- The pieces are the line, but for white space between them. -/
inductive Rejoins : List Text → Text → Prop
  | last (line : Text) : Rejoins [line] line
  | cut {pieces : List Text} {rest : Text} (piece gap : Text) :
    (∀ c ∈ gap, u.isSpace c = true) → Rejoins pieces rest →
      Rejoins (piece :: pieces) (piece ++ gap ++ rest)

/-- The character is in a part of the line that wrapping keeps: in a line that is short enough, in front of
where the line is cut, or in a kept part of what follows the white space there. -/
inductive Kept (c : Char) : Text → Prop
  | short {line : Text} : line.length ≤ MAX_CHARS → c ∈ line → Kept c line
  | before {line : Text} : MAX_CHARS < line.length → c ∈ line.take (cutOf line MAX_CHARS) → Kept c line
  | after {line : Text} : MAX_CHARS < line.length →
    Kept c ((line.drop (cutOf line MAX_CHARS)).dropWhile u.isSpace) → Kept c line

/-- The report's text is shown without loss. -/
structure Lossless (text : Text) : Prop where
  /-- The string operands of the pages are their lines. -/
  decoded : (layout (paginate text)).content_streams.map (fun s ↦ LiteralString.operands s.2) =
    (paginate text).map fun page ↦ some (page.map Text.latin1)
  /-- The lines of the pages are those of the text. -/
  rejoined : ∃ pieces : List (List Text), (paginate text).flatten = pieces.flatten ∧
    List.Forall₂ (fun lines raw ↦ Rejoins lines (expandTabs raw)) pieces (Text.split '\n' text)
  /-- No line is too long. -/
  width : ∀ page ∈ paginate text, ∀ line ∈ page, line.length ≤ MAX_CHARS
  /-- No page has too many lines. -/
  height : ∀ page ∈ paginate text, page.length ≤ lines_per_page

/-! ### Wrapping -/

omit u in
theorem rfind_lt {c : Char} {t : Text} {i : ℕ} (h : rfind c t = some i) : i < t.length := by
  induction t generalizing i with
  | nil => exact absurd h (by rintro ⟨⟩)
  | cons d t ih =>
    rw [rfind] at h
    cases hrest : rfind c t with
    | some j =>
      rw [hrest] at h
      cases h
      exact Nat.succ_lt_succ (ih hrest)
    | none =>
      rw [hrest] at h
      by_cases hd : d = c
      · cases (if_pos hd).symm.trans h
        exact Nat.succ_pos _
      · cases (if_neg hd).symm.trans h

omit u in
theorem cutOf_le (line : Text) (width : ℕ) : cutOf line width ≤ width := by
  unfold cutOf
  split
  · rename_i i hfind
    have hlt := rfind_lt hfind
    rw [List.length_take] at hlt
    omega
  · exact le_rfl

/-- The pieces of a line: it is put together from them, they are short, and have what is kept of it. -/
structure Wrapped (pieces : List Text) (line : Text) : Prop where
  rejoins : Rejoins pieces line
  width : ∀ piece ∈ pieces, piece.length ≤ MAX_CHARS
  kept : ∀ c, (∃ piece ∈ pieces, c ∈ piece) ↔ Kept c line

theorem Wrapped.last {line : Text} (h : line.length ≤ MAX_CHARS) : Wrapped [line] line where
  rejoins := .last line
  width piece hpiece := by
    rw [List.mem_singleton.1 hpiece]
    exact h
  kept c := by
    constructor
    · rintro ⟨piece, hpiece, hc⟩
      rw [List.mem_singleton.1 hpiece] at hc
      exact .short h hc
    · intro hkept
      cases hkept with
      | short _ hc => exact ⟨line, List.mem_singleton_self line, hc⟩
      | before hlong _ => exact absurd h (Nat.not_le.2 hlong)
      | after hlong _ => exact absurd h (Nat.not_le.2 hlong)

theorem Wrapped.cut {line : Text} {pieces : List Text} (h : MAX_CHARS < line.length)
    (hrest : Wrapped pieces ((line.drop (cutOf line MAX_CHARS)).dropWhile u.isSpace)) :
    Wrapped (line.take (cutOf line MAX_CHARS) :: pieces) line where
  rejoins := by
    have hjoin := Rejoins.cut (line.take (cutOf line MAX_CHARS))
      ((line.drop (cutOf line MAX_CHARS)).takeWhile u.isSpace)
      (fun c hc ↦ List.mem_takeWhile_imp hc) hrest.rejoins
    rwa [List.append_assoc, List.takeWhile_append_dropWhile, List.take_append_drop] at hjoin
  width := by
    intro piece hpiece
    rcases List.mem_cons.1 hpiece with rfl | hpiece
    · rw [List.length_take]
      exact (Nat.min_le_left _ _).trans (cutOf_le line MAX_CHARS)
    · exact hrest.width piece hpiece
  kept := by
    intro c
    constructor
    · rintro ⟨piece, hpiece, hc⟩
      rcases List.mem_cons.1 hpiece with rfl | hpiece
      · exact .before h hc
      · exact .after h ((hrest.kept c).1 ⟨piece, hpiece, hc⟩)
    · intro hkept
      cases hkept with
      | short hshort _ => exact absurd hshort (Nat.not_le.2 h)
      | before _ hc => exact ⟨_, List.mem_cons_self, hc⟩
      | after _ hlater =>
        obtain ⟨piece, hpiece, hc⟩ := (hrest.kept c).2 hlater
        exact ⟨piece, List.mem_cons_of_mem _ hpiece, hc⟩

/-- The loop appends the pieces of the line. -/
theorem wrapLoop_spec (line : Text) (out : List Text) :
    ∃ pieces, wrapLoop line out = out ++ pieces ∧ Wrapped pieces line := by
  induction line, out using wrapLoop.induct with
  | case1 line out hlong ih =>
    obtain ⟨pieces, hloop, hpieces⟩ := ih
    refine ⟨line.take (cutOf line MAX_CHARS) :: pieces, ?_, hpieces.cut hlong⟩
    rw [wrapLoop, if_pos hlong, hloop, List.append_assoc]
    rfl
  | case2 line out hshort =>
    refine ⟨[line], ?_, .last (Nat.le_of_not_lt hshort)⟩
    rw [wrapLoop, if_neg hshort]

omit u in
theorem rstrip_of_notMem {c : Char} {t : Text} (h : c ∉ t) : rstrip c t = t := by
  have hkeep : t.reverse.dropWhile (· = c) = t.reverse := by
    cases hrev : t.reverse with
    | nil => rfl
    | cons d l =>
      have hd : d ∈ t := List.mem_reverse.1 (hrev ▸ List.mem_cons_self)
      have hne : ¬d = c := fun hdc ↦ h (hdc ▸ hd)
      exact List.dropWhile_cons_of_neg (by simpa using hne)
  rw [rstrip, hkeep, List.reverse_reverse]

omit u in
theorem mem_replace {c d : Char} {new t : Text} (h : d ∈ replace c new t) : d ∈ new ∨ d ∈ t := by
  obtain ⟨e, he, hd⟩ := List.mem_flatMap.1 h
  by_cases hec : e = c
  · exact .inl (by rwa [if_pos hec] at hd)
  · rw [if_neg hec, List.mem_singleton] at hd
    exact .inr (hd ▸ he)

/-- A line of the text is wrapped, its tabs expanded. -/
theorem wrapped_wrap {raw : Text} (h : '\n' ∉ raw) : Wrapped (wrap raw) (expandTabs raw) := by
  have hstrip : rstrip '\n' (expandTabs raw) = expandTabs raw := by
    refine rstrip_of_notMem fun hmem ↦ ?_
    rcases mem_replace hmem with hmem | hmem
    · exact absurd hmem (by decide)
    · exact h hmem
  by_cases hempty : expandTabs raw = []
  · have hwrap : wrap raw = [[]] := if_pos (hstrip.trans hempty)
    rw [hwrap, hempty]
    exact .last (Nat.zero_le _)
  · have hwrap : wrap raw = wrapLoop (rstrip '\n' (expandTabs raw)) [] :=
      if_neg fun hnil ↦ hempty (hstrip.symm.trans hnil)
    obtain ⟨pieces, hloop, hpieces⟩ := wrapLoop_spec (expandTabs raw) []
    rw [hwrap, hstrip, hloop]
    exact hpieces

theorem Wrapped.ne_nil {pieces : List Text} {line : Text} (h : Wrapped pieces line) : pieces ≠ [] := by
  cases h.rejoins <;> exact List.cons_ne_nil _ _

/-! ### Pages -/

omit u in
/-- The slices of a list, one after the other, are the list. -/
theorem flatten_slices (l : List Text) : (slices l).flatten = l := by
  have hslices : ∀ (k s : ℕ), ((List.range' s k lines_per_page).map fun i ↦
      (l.drop i).take lines_per_page).flatten = (l.drop s).take (k * lines_per_page) := by
    intro k
    induction k with
    | zero =>
      intro s
      rw [Nat.zero_mul, List.take_zero]
      rfl
    | succ k ih =>
      intro s
      rw [List.range'_succ, List.map_cons, List.flatten_cons, ih, Nat.succ_mul, Nat.add_comm (k * _),
        List.take_add, List.drop_drop]
  rw [slices, hslices, List.drop_zero, List.take_of_length_le]
  show l.length ≤ (l.length + 57 - 1) / 57 * 57
  omega

/-- The lines of the pages are those that wrapping produced. -/
theorem flatten_paginate (text : Text) :
    (paginate text).flatten = (Text.split '\n' text).flatMap wrap := by
  have hflat := flatten_slices ((Text.split '\n' text).flatMap wrap)
  by_cases hnil : slices ((Text.split '\n' text).flatMap wrap) = []
  · -- a text has a line, and a line has a piece
    obtain ⟨raw, rest, hsplit⟩ := List.exists_cons_of_ne_nil (Text.split_ne_nil '\n' text)
    have hraw : raw ∈ Text.split '\n' text := hsplit ▸ List.mem_cons_self
    have hwrap := (wrapped_wrap (Text.not_mem_of_mem_split hraw)).ne_nil
    rw [hnil, List.flatten_nil, hsplit, List.flatMap_cons] at hflat
    exact absurd (List.append_eq_nil_iff.1 hflat.symm).1 hwrap
  · have hpages : paginate text = slices ((Text.split '\n' text).flatMap wrap) := if_neg hnil
    rw [hpages, hflat]

theorem length_of_mem_paginate {text : Text} {page : List Text} (h : page ∈ paginate text) :
    page.length ≤ lines_per_page := by
  by_cases hnil : slices ((Text.split '\n' text).flatMap wrap) = []
  · have hpages : paginate text = [[[]]] := if_pos hnil
    rw [hpages, List.mem_singleton] at h
    rw [h]
    decide
  · have hpages : paginate text = slices ((Text.split '\n' text).flatMap wrap) := if_neg hnil
    rw [hpages] at h
    obtain ⟨i, -, rfl⟩ := List.mem_map.1 h
    rw [List.length_take]
    exact Nat.min_le_left _ _

/-- A line of a page is a piece of a line of the text. -/
theorem mem_page_iff (text line : Text) :
    (∃ page ∈ paginate text, line ∈ page) ↔ ∃ raw ∈ Text.split '\n' text, line ∈ wrap raw := by
  rw [← List.mem_flatten, flatten_paginate, List.mem_flatMap]

/-! ### Reading the streams -/

omit u in
/-- `_escape` puts a backslash in front of every backslash and parenthesis. -/
theorem escape_eq (t : Text) :
    escape t = t.flatMap fun c ↦ if c = '\\' ∨ c = '(' ∨ c = ')' then ['\\', c] else [c] := by
  rw [escape, replace, replace, replace, List.flatMap_assoc, List.flatMap_assoc]
  refine List.flatMap_congr fun c _ ↦ ?_
  by_cases hback : c = '\\'
  · subst hback
    rfl
  · by_cases hopen : c = '('
    · subst hopen
      rfl
    · by_cases hclose : c = ')'
      · subst hclose
        rfl
      · rw [if_neg hback, if_neg (by simp only [hback, hopen, hclose, or_self, not_false_eq_true]),
          List.flatMap_singleton, if_neg hopen, List.flatMap_singleton, if_neg hclose]

omit u in
/-- The byte of a special character is special, and no other. -/
theorem latin1_byte (c : Char) {b : UInt8} (hb : b.toNat < 128) (hmark : b.toNat ≠ 63) :
    (if c.toNat < 256 then UInt8.ofNat c.toNat else 63) = b ↔ c.toNat = b.toNat := by
  rw [← UInt8.toNat_inj]
  by_cases hc : c.toNat < 256
  · rw [if_pos hc, UInt8.toNat_ofNat']
    omega
  · rw [if_neg hc]
    show 63 = b.toNat ↔ _
    omega

omit u in
theorem char_eq_iff (c d : Char) : c = d ↔ c.toNat = d.toNat :=
  ⟨fun h ↦ by rw [h], fun h ↦ Char.ext (UInt32.toNat_inj.1 h)⟩

omit u in
/-- Escaping and writing in Latin-1 commute. -/
theorem latin1_escape (t : Text) : Text.latin1 (escape t) = LiteralString.escaped (Text.latin1 t) := by
  rw [escape_eq, Text.latin1, Text.latin1, LiteralString.escaped, List.map_flatMap, List.flatMap_map]
  refine List.flatMap_congr fun c _ ↦ ?_
  have hspecial : (c = '\\' ∨ c = '(' ∨ c = ')') ↔
      (if c.toNat < 256 then UInt8.ofNat c.toNat else 63) = 92 ∨
      (if c.toNat < 256 then UInt8.ofNat c.toNat else 63) = 40 ∨
      (if c.toNat < 256 then UInt8.ofNat c.toNat else 63) = 41 := by
    rw [latin1_byte c (by decide) (by decide), latin1_byte c (by decide) (by decide),
      latin1_byte c (by decide) (by decide), char_eq_iff c, char_eq_iff c, char_eq_iff c]
    rfl
  by_cases h : c = '\\' ∨ c = '(' ∨ c = ')'
  · rw [if_pos h, if_pos (hspecial.1 h)]
    rfl
  · rw [if_neg h, if_neg (fun hbyte ↦ h (hspecial.2 hbyte))]
    rfl

omit u in
theorem return_mem_latin1 (t : Text) : 13 ∈ Text.latin1 t ↔ '\r' ∈ t := by
  rw [Text.latin1, List.mem_map]
  constructor
  · rintro ⟨c, hc, hbyte⟩
    have hcode := (latin1_byte c (by decide) (by decide)).1 hbyte
    rwa [(char_eq_iff c '\r').2 hcode] at hc
  · intro h
    exact ⟨'\r', h, rfl⟩

omit u in
/-- The operators of a page are read as the lines that they show. -/
theorem scan_showLines (first : Bool) (page_lines : List Text) :
    LiteralString.scan none (Text.latin1
      ((showLines first page_lines ++ ["ET".toList]).flatMap ("\n".toList ++ ·))) =
        some (page_lines.map fun line ↦ LiteralString.eol (Text.latin1 line)) := by
  induction page_lines generalizing first with
  | nil => cases first <;> rfl
  | cons line page_lines ih =>
    -- what stands before the parenthesis holds no string
    have hshow : ∀ open' : Text, 40 ∉ Text.latin1 open' → ∀ rest : Text,
        LiteralString.scan none (Text.latin1 ("\n".toList ++ (open' ++ "(".toList ++ escape line ++
          ") Tj".toList) ++ rest)) = (LiteralString.scan none (Text.latin1 (" Tj".toList ++ rest))).map
            (LiteralString.eol (Text.latin1 line) :: ·) := by
      intro open' hopen rest
      have hbytes : Text.latin1 ("\n".toList ++ (open' ++ "(".toList ++ escape line ++ ") Tj".toList) ++
          rest) = (10 :: Text.latin1 open') ++ (40 :: (LiteralString.escaped (Text.latin1 line) ++
            41 :: Text.latin1 (" Tj".toList ++ rest))) := by
        simp only [Text.latin1_append, latin1_escape, List.append_assoc]
        rfl
      rw [hbytes, LiteralString.scan_skip, LiteralString.scan_string]
      rw [List.mem_cons, not_or]
      exact ⟨by decide, hopen⟩
    have htail : ∀ rest : Text, LiteralString.scan none (Text.latin1 (" Tj".toList ++ rest)) =
        LiteralString.scan none (Text.latin1 rest) := by
      intro rest
      rw [Text.latin1_append, LiteralString.scan_skip (by decide)]
    rw [showLines, List.cons_append, List.flatMap_cons, List.map_cons]
    cases first with
    | true =>
      refine (hshow [] (by decide) _).trans ?_
      rw [htail, ih]
      rfl
    | false =>
      refine (hshow "T* ".toList (by decide) _).trans ?_
      rw [htail, ih]
      rfl

omit u in
/-- The operands of a page's stream are its lines, each as it is read. -/
theorem operands_stream (page_lines : List Text) :
    LiteralString.operands (stream page_lines) =
      some (page_lines.map fun line ↦ LiteralString.eol (Text.latin1 line)) := by
  have hparts : parts page_lines = "BT".toList :: (["/F1 9 Tf".toList, "12 TL".toList,
      "54 738 Td".toList] ++ (showLines true page_lines ++ ["ET".toList])) := by
    rw [parts, List.append_assoc]
    rfl
  rw [LiteralString.operands, stream, hparts, Text.intercalate_cons, List.flatMap_append,
    ← List.append_assoc, Text.latin1_append, LiteralString.scan_skip (by decide),
    scan_showLines]

/-! ### When nothing is lost -/

omit u in
theorem content_streams_layout (pages : List (List Text)) :
    (layout pages).content_streams.map (fun s ↦ LiteralString.operands s.2) =
      pages.map fun page ↦ some (page.map fun line ↦ LiteralString.eol (Text.latin1 line)) := by
  have hstreams := streams_entriesFrom 4 pages
  have hlayout : (layout pages).content_streams =
      (entriesFrom 4 pages).map fun p ↦ (p.content_id, p.stream) := by
    rw [layout, foldl_addPage]
    rfl
  have hoperands : (layout pages).content_streams.map (fun s ↦ LiteralString.operands s.2) =
      ((entriesFrom 4 pages).map PageEntry.stream).map LiteralString.operands := by
    rw [hlayout, List.map_map, List.map_map]
    rfl
  rw [hoperands, hstreams, List.map_map]
  exact List.map_congr_left fun page _ ↦ operands_stream page

/-- What holds of every text: the lines of the pages are those of the text, short, and few a page. -/
theorem lossless_of_decoded {text : Text}
    (h : (layout (paginate text)).content_streams.map (fun s ↦ LiteralString.operands s.2) =
      (paginate text).map fun page ↦ some (page.map Text.latin1)) : Lossless text where
  decoded := h
  rejoined := by
    refine ⟨(Text.split '\n' text).map wrap, ?_, ?_⟩
    · rw [flatten_paginate, List.flatMap_def]
    · refine List.forall₂_map_left_iff.2 (List.forall₂_same.2 fun raw hraw ↦ ?_)
      exact (wrapped_wrap (Text.not_mem_of_mem_split hraw)).rejoins
  width := by
    intro page hpage line hline
    obtain ⟨raw, hraw, hpiece⟩ := (mem_page_iff text line).1 ⟨page, hpage, hline⟩
    exact (wrapped_wrap (Text.not_mem_of_mem_split hraw)).width line hpiece
  height page hpage := length_of_mem_paginate hpage

/-- The operands are the lines exactly when no line has a carriage return. -/
theorem decoded_iff (text : Text) :
    (layout (paginate text)).content_streams.map (fun s ↦ LiteralString.operands s.2) =
        (paginate text).map (fun page ↦ some (page.map Text.latin1)) ↔
      ∀ raw ∈ Text.split '\n' text, ¬Kept '\r' (expandTabs raw) := by
  have hlines : ((paginate text).map fun page ↦
      some (page.map fun line ↦ LiteralString.eol (Text.latin1 line))) =
        (paginate text).map (fun page ↦ some (page.map Text.latin1)) ↔
          ∀ page ∈ paginate text, ∀ line ∈ page, '\r' ∉ line := by
    rw [List.map_inj_left]
    refine forall₂_congr fun page _ ↦ ?_
    rw [Option.some.injEq, List.map_inj_left]
    refine forall₂_congr fun line _ ↦ ?_
    rw [LiteralString.eol_eq_self_iff, return_mem_latin1]
  rw [content_streams_layout, hlines]
  constructor
  · intro h raw hraw hkept
    obtain ⟨line, hline, hc⟩ :=
      ((wrapped_wrap (Text.not_mem_of_mem_split hraw)).kept '\r').2 hkept
    obtain ⟨page, hpage, hmem⟩ := (mem_page_iff text line).2 ⟨raw, hraw, hline⟩
    exact h page hpage line hmem hc
  · intro h page hpage line hline hc
    obtain ⟨raw, hraw, hpiece⟩ := (mem_page_iff text line).1 ⟨page, hpage, hline⟩
    exact h raw hraw
      (((wrapped_wrap (Text.not_mem_of_mem_split hraw)).kept '\r').1 ⟨line, hpiece, hc⟩)

theorem mem_of_kept {c : Char} {line : Text} (h : Kept c line) : c ∈ line := by
  induction h with
  | short _ hc => exact hc
  | before _ hc => exact List.mem_of_mem_take hc
  | after _ _ ih => exact List.mem_of_mem_drop ((List.dropWhile_suffix _).subset ih)

/-- Nothing is lost of a text without carriage returns. -/
theorem lossless_of_notMem {text : Text} (h : '\r' ∉ text) : Lossless text := by
  refine lossless_of_decoded ((decoded_iff text).2 fun raw hraw hkept ↦ ?_)
  rcases mem_replace (mem_of_kept hkept) with hmem | hmem
  · exact absurd hmem (by decide)
  · exact h (Text.subset_of_mem_split hraw hmem)

/-- The report's text is shown without loss exactly when no carriage return of it is in a part of a line
that wrapping keeps. -/
theorem lossless_iff (text : Text) :
    Lossless text ↔ ∀ raw ∈ Text.split '\n' text, ¬Kept '\r' (expandTabs raw) := by
  constructor
  · intro h
    exact (decoded_iff text).1 h.decoded
  · intro h
    exact lossless_of_decoded ((decoded_iff text).2 h)

end

/-- A carriage return between two letters is read as a line feed. -/
theorem return_read_as_line_feed : ¬@Lossless asciiTables "a\rb".toList := by
  intro h
  have hline : "a\rb".toList ∈ Text.split '\n' "a\rb".toList := by decide
  have hkept : @Kept asciiTables '\r' (expandTabs "a\rb".toList) :=
    @Kept.short asciiTables _ _ (by decide) (by decide)
  exact (@decoded_iff asciiTables _).1 (@Lossless.decoded asciiTables _ h) _ hline hkept

end PdfReport
