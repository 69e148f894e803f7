import Mathlib.Data.List.TakeWhile
import Sentrik.Discovery.CrawlSearch

/-!
# Forms

What the crawler reads of the forms of a page. A page is a list of forms with text between them; a form has
the attributes of its opening tag, and inputs with attributes among other content (`HtmlPage`).

The pattern for forms finds each form of the page, and reports what stands between the first `>` of it and its
closing tag (`findall_FORM`). All that is read of a form is read there, so action and method are not those of
the opening tag. `visit_forms_iff` says for which forms it comes to the same.
-/

namespace Sentrik

namespace Discovery

/-! ### Pages with forms -/

/-- An attribute: white space, a name, and a quoted value. -/
structure Attr where
  space : Text := [' ']
  name : Text
  quote : Char := '"'
  value : Text
  deriving DecidableEq

def Attr.render (x : Attr) : Text := x.space ++ x.name ++ '=' :: x.quote :: (x.value ++ [x.quote])

/-- The text is the word, in any case. -/
def spells (word t : Text) : Bool := t.length = word.length && Regex.startsWord word t

/-- The value of the first attribute of this name. -/
def attrValue (name : String) (attrs : List Attr) : Option Text :=
  (attrs.find? fun x ↦ spells name.toList x.name).map (·.value)

/-- A part of a form. -/
inductive Piece
  | markup (t : Text)
  | input (attrs : List Attr)

def Piece.render : Piece → Text
  | markup t => t
  | input attrs => "<input".toList ++ attrs.flatMap Attr.render ++ ['>']

/-- The name of an input. -/
def Piece.name? : Piece → Option Text
  | markup _ => none
  | input attrs => attrValue "name" attrs

/-- A form. The tags may be written in any case. -/
structure HtmlForm where
  opening : Text := "<form".toList
  closing : Text := "</form>".toList
  attrs : List Attr
  content : List Piece

namespace HtmlForm

/-- What stands between the tag's name and the closing tag. -/
def inner (f : HtmlForm) : Text := f.attrs.flatMap Attr.render ++ '>' :: f.content.flatMap Piece.render

def render (f : HtmlForm) : Text := f.opening ++ f.inner ++ f.closing

/-- The method of the form. -/
def method [u : UnicodeTables] (f : HtmlForm) : Text := u.upper ((attrValue "method" f.attrs).getD "GET".toList)

/-- Where the form leads on this page. -/
def target [u : UnicodeTables] (url : Text) (f : HtmlForm) : Except Raised Text :=
  match attrValue "action" f.attrs with
  | some value => joined url value
  | none => .ok url

/-- The names of the inputs. -/
def names (f : HtmlForm) : List Text := f.content.filterMap Piece.name?

/-- The endpoint that stands for the form. -/
def endpoint [u : UnicodeTables] [d : DigitTables] (url : Text) (f : HtmlForm) :
    Except Raised DiscoveredEndpoint := do
  DiscoveredEndpoint.post_init {
    method := f.method
    url := ← f.target url
    provenance := .CRAWL
    parameters := f.names.map (formParam f.method) }

/-- What stands behind the first `>`. -/
def captured (f : HtmlForm) : Text := (f.inner.dropWhile (· != '>')).tail

end HtmlForm

/-- A page: forms, each with the text before it, and the text behind the last one. -/
structure HtmlPage where
  parts : List (Text × HtmlForm)
  rest : Text := []

namespace HtmlPage

def render (page : HtmlPage) : Text := page.parts.flatMap (fun x ↦ x.1 ++ x.2.render) ++ page.rest

def forms (page : HtmlPage) : List HtmlForm := page.parts.map Prod.snd

end HtmlPage

/-! ### Well-formed pages -/

/-- The word occurs in the text, in any case. -/
def occurs (word t : Text) : Bool := t.tails.any (Regex.startsWord word)

def isHtmlSpace (c : Char) : Bool := c == ' ' || c == '\t' || c == '\n' || c == '\r' || c == '\u000c'

structure Attr.WellFormed (x : Attr) : Prop where
  space : x.space ≠ [] ∧ x.space.all isHtmlSpace = true
  name : x.name ≠ [] ∧ x.name.any (fun c ↦ isHtmlSpace c || c == '=' || c == '>' || isQuote c) = false
  quote : isQuote x.quote = true ∧ x.quote ∉ x.value

structure HtmlForm.WellFormed (f : HtmlForm) : Prop where
  opening : spells "<form".toList f.opening = true
  closing : spells "</form>".toList f.closing = true
  attrs : ∀ x ∈ f.attrs, x.WellFormed
  /-- The form ends at its closing tag, and no other form begins before it. -/
  inner : occurs "</form>".toList f.inner = false ∧ occurs "<form".toList f.inner = false
  inputs : ∀ attrs, Piece.input attrs ∈ f.content → ∀ x ∈ attrs, x.WellFormed

/-- Outside of the forms, there is no opening tag of a form. -/
structure HtmlPage.WellFormed (page : HtmlPage) : Prop where
  forms : ∀ f ∈ page.forms, f.WellFormed
  gaps : ∀ x ∈ page.parts, occurs "<form".toList x.1 = false
  rest : occurs "<form".toList page.rest = false

/-! ### Words in texts -/

/-- Lowering changes capital letters only. -/
theorem toLower_eq_cases {x c : Char} (h : x.toLower = c) :
    x = c ∨ x.toNat + 32 = c.toNat ∧ 65 ≤ x.toNat ∧ x.toNat ≤ 90 := by
  by_cases hupper : x.val ≥ 'A'.val ∧ x.val ≤ 'Z'.val
  · have hval : x.toLower.val = x.val + ('a'.val - 'A'.val) := congrArg Char.val (dif_pos hupper)
    have hlo : 65 ≤ x.toNat := UInt32.le_iff_toNat_le.1 hupper.1
    have hhi : x.toNat ≤ 90 := UInt32.le_iff_toNat_le.1 hupper.2
    have hnat : c.toNat = (x.toNat + 32) % 2 ^ 32 := by
      rw [← h]
      exact (congrArg UInt32.toNat hval).trans (UInt32.toNat_add _ _)
    exact .inr (by omega)
  · exact .inl ((Char.toLower_of_not_upper hupper).symm.trans h)

theorem eq_of_caseless_bracket {x : Char} (h : Regex.caseless '<' x = true) : x = '<' := by
  have hlower : x.toLower = '<' := by simpa [Regex.caseless] using h
  rcases toLower_eq_cases hlower with heq | ⟨hnat, hlo, -⟩
  · exact heq
  · have hbracket : '<'.toNat = 60 := rfl
    omega

/-- A word that is not in a text is not found across its end, where a character comes that the word does not
have. -/
theorem startsWord_append_cons {c : Char} {word t : Text} (rest : Text)
    (hword : word.any (fun x ↦ Regex.caseless x c) = false) (h : Regex.startsWord word t = false) :
    Regex.startsWord word (t ++ c :: rest) = false := by
  induction word generalizing t with
  | nil => cases h
  | cons x word ih =>
    rw [List.any_cons, Bool.or_eq_false_iff] at hword
    obtain ⟨hx, hrest⟩ := hword
    cases t with
    | nil =>
      show (Regex.caseless x c && _) = false
      rw [hx, Bool.false_and]
    | cons y t =>
      show (Regex.caseless x y && Regex.startsWord word (t ++ c :: rest)) = false
      replace h : (Regex.caseless x y && Regex.startsWord word t) = false := h
      rcases Bool.and_eq_false_iff.1 h with hy | ht
      · rw [hy, Bool.false_and]
      · rw [ih hrest ht, Bool.and_false]

theorem not_startsWord_of_occurs {word t s : Text} (h : occurs word t = false) (hs : s <:+ t) :
    Regex.startsWord word s = false := by
  have hall := List.any_eq_false.1 h s ((List.mem_tails _ _).2 hs)
  exact Bool.eq_false_iff.2 hall

/-- A tag that is not in a text does not begin in it either when another tag follows. -/
theorem not_startsWord_tag {t s : Text} (word rest : Text)
    (hword : word.any (fun x ↦ Regex.caseless x '<') = false) (h : occurs ('<' :: word) t = false)
    (hs : s <:+ t) (hne : s ≠ []) :
    Regex.startsWord ('<' :: word) (s ++ '<' :: rest) = false := by
  have hnot := not_startsWord_of_occurs h hs
  cases s with
  | nil => exact absurd rfl hne
  | cons y s =>
    show (Regex.caseless '<' y && Regex.startsWord word (s ++ '<' :: rest)) = false
    replace hnot : (Regex.caseless '<' y && Regex.startsWord word s) = false := hnot
    rcases Bool.and_eq_false_iff.1 hnot with hy | hword'
    · rw [hy, Bool.false_and]
    · rw [startsWord_append_cons rest hword hword', Bool.and_false]

/-- A tag begins with a bracket. -/
theorem exists_of_spells {t : Text} (word : Text) (h : spells ('<' :: word) t = true) :
    ∃ s, t = '<' :: s ∧ s.length = word.length ∧ Regex.startsWord word s = true := by
  obtain ⟨hlength, hword⟩ := Bool.and_eq_true_iff.1 h
  cases t with
  | nil => cases hword
  | cons x s =>
    obtain ⟨hx, hs⟩ := Bool.and_eq_true_iff.1 hword
    obtain rfl := eq_of_caseless_bracket hx
    exact ⟨s, rfl, Nat.succ.inj (of_decide_eq_true hlength), hs⟩

/-- The place behind an opening tag's name. -/
theorem skip_opening {opening : Text} (before : Option Char) (rest : Text)
    (h : spells "<form".toList opening = true) :
    ∃ c, Regex.caseless 'm' c = true ∧
      Regex.Place.skip ⟨before, opening ++ rest⟩ 5 = ⟨some c, rest⟩ := by
  obtain ⟨s, rfl, hlength, hword⟩ := exists_of_spells "form".toList h
  match s, hlength with
  | [c₁, c₂, c₃, c₄], _ =>
    obtain ⟨-, h₂⟩ := Bool.and_eq_true_iff.1 hword
    obtain ⟨-, h₃⟩ := Bool.and_eq_true_iff.1 h₂
    obtain ⟨-, h₄⟩ := Bool.and_eq_true_iff.1 h₃
    obtain ⟨hc, -⟩ := Bool.and_eq_true_iff.1 h₄
    exact ⟨c₄, hc, rfl⟩

/-! ### The pattern for forms -/

/-- What is assumed of the word tables: in ASCII, the letters and digits are those of ASCII. -/
class LawfulWordTables [w : WordTables] : Prop where
  isAlnum_ascii : ∀ {c : Char}, c.toNat < 128 → w.isAlnum c = c.isAlphanum

instance : @LawfulWordTables asciiWords := @LawfulWordTables.mk asciiWords fun _ ↦ rfl

section

variable [w : WordTables]

theorem first_FORM_eq_none {a : Place} (h : Regex.startsWord "<form".toList a.rest = false) :
    Regex.first _FORM a = none := by
  have hword : Regex.ways (.word "<form".toList) a = [] := by
    rw [Regex.ways_word, h]
    rfl
  have hways : Regex.ways _FORM a = [] := Regex.ways_seq_of_nil hword
  rw [Regex.first, hways]
  rfl

variable [LawfulWordTables]

theorem isWord_of_caseless_m {c : Char} (h : Regex.caseless 'm' c = true) : isWord c = true := by
  have hlower : c.toLower = 'm' := by simpa [Regex.caseless] using h
  have hm : 'm'.toNat = 109 := rfl
  rw [isWord, Bool.or_eq_true]
  refine .inl ?_
  rcases toLower_eq_cases hlower with rfl | ⟨hnat, -, -⟩
  · rw [LawfulWordTables.isAlnum_ascii (by decide)]
    rfl
  · obtain rfl : c = 'M' := Char.toNat_inj.1 (show c.toNat = 77 by omega)
    rw [LawfulWordTables.isAlnum_ascii (by decide)]
    rfl

/-- **A form is found**, with what stands behind its first `>`. -/
theorem first_FORM {before : Option Char} {opening tag body closing rest : Text}
    (hopening : spells "<form".toList opening = true) (hclosing : spells "</form>".toList closing = true)
    (htag : ∀ c ∈ tag, c ≠ '>') (hedge : (tag ++ ['>']).head?.any isWord = false)
    (hbody : occurs "</form>".toList body = false) :
    ∃ e, Regex.first _FORM ⟨before, opening ++ (tag ++ '>' :: (body ++ (closing ++ rest)))⟩ =
      some ([body], e) ∧ e.rest = rest := by
  have hword : Regex.startsWord "<form".toList opening = true := (Bool.and_eq_true_iff.1 hopening).2
  obtain ⟨c, hc, hskip⟩ := skip_opening before (tag ++ '>' :: (body ++ (closing ++ rest)))
    hopening
  -- the name of the tag, and its end
  have hname : Regex.ways (.word "<form".toList)
      ⟨before, opening ++ (tag ++ '>' :: (body ++ (closing ++ rest)))⟩ =
        [([], ⟨some c, tag ++ '>' :: (body ++ (closing ++ rest))⟩)] := by
    rw [Regex.ways_word, Regex.startsWord_append hword, if_pos rfl]
    exact congrArg (fun b ↦ [([], b)]) hskip
  have hhead : (tag ++ '>' :: (body ++ (closing ++ rest))).head? = (tag ++ ['>']).head? := by
    cases tag <;> rfl
  have hboundary : Regex.ways (.edge isWord) ⟨some c, tag ++ '>' :: (body ++ (closing ++ rest))⟩ =
      [([], ⟨some c, tag ++ '>' :: (body ++ (closing ++ rest))⟩)] := by
    rw [Regex.ways, hhead, hedge, Option.any_some, isWord_of_caseless_m hc]
    rfl
  -- the attributes, up to the bracket
  have hattrs : (tag ++ '>' :: (body ++ (closing ++ rest))).dropWhile (· != '>') =
      '>' :: (body ++ (closing ++ rest)) := by
    rw [List.dropWhile_append_of_pos fun x hx ↦ bne_iff_ne.2 (htag x hx)]
    rfl
  have hbracket : ∀ b, Regex.ways (.char (· == '>')) ⟨b, '>' :: (body ++ (closing ++ rest))⟩ =
      [([], ⟨some '>', body ++ (closing ++ rest)⟩)] := fun b ↦ rfl
  have hapart : ∀ x : Char, (x == '>') = true → (x != '>') = false := fun x hx ↦ by
    rw [beq_iff_eq.1 hx]
    rfl
  obtain ⟨before', hmany⟩ := Regex.ways_many_char
    (r := .all [.group (.many (fun _ ↦ true) false), .word "</form>".toList])
    (a := ⟨some c, tag ++ '>' :: (body ++ (closing ++ rest))⟩) hapart true
  have hways : Regex.ways _FORM ⟨before, opening ++ (tag ++ '>' :: (body ++ (closing ++ rest)))⟩ =
      Regex.ways (.all [.group (.many (fun _ ↦ true) false), .word "</form>".toList])
        ⟨some '>', body ++ (closing ++ rest)⟩ := by
    refine (Regex.ways_seq_of_singleton hname).trans ((Regex.ways_seq_of_singleton hboundary).trans ?_)
    refine hmany.trans ?_
    rw [hattrs]
    exact Regex.ways_seq_of_singleton (hbracket before')
  rw [Regex.first, hways]
  refine Regex.first_lazy (s := body) (t := closing ++ rest) rfl ?_ ?_
  · intro b u hu hsuffix hb
    obtain ⟨s, rfl, -, -⟩ := exists_of_spells "/form>".toList hclosing
    have hnot : Regex.startsWord "</form>".toList (u ++ '<' :: (s ++ rest)) = false :=
      not_startsWord_tag "/form>".toList (s ++ rest) (by decide) hbody hsuffix hu
    refine Regex.ways_seq_of_nil ?_
    rw [Regex.ways_word, hb, List.cons_append, hnot]
    rfl
  · intro b hb
    have hlength : closing.length = 7 := of_decide_eq_true (Bool.and_eq_true_iff.1 hclosing).1
    refine ⟨Regex.Place.skip b 7, [], ?_, ?_⟩
    · refine Regex.ways_seq_of_singleton ?_
      rw [Regex.ways_word, hb, Regex.startsWord_append (Bool.and_eq_true_iff.1 hclosing).2]
      rfl
    · rw [Regex.skip_rest, hb, ← hlength, List.drop_left]

/-! ### The forms of a page -/

omit w [LawfulWordTables] in
theorem occurs_of_suffix {word s t : Text} (h : occurs word t = false) (hs : s <:+ t) :
    occurs word s = false :=
  List.any_eq_false.2 fun u hu ↦
    List.any_eq_false.1 h u ((List.mem_tails _ _).2 (((List.mem_tails _ _).1 hu).trans hs))

omit w [LawfulWordTables] in
/-- The form up to its first bracket, and what is captured. -/
theorem HtmlForm.inner_eq (f : HtmlForm) :
    f.inner = f.inner.takeWhile (· != '>') ++ '>' :: f.captured := by
  have hmem : '>' ∈ f.inner := List.mem_append_right _ List.mem_cons_self
  have hdrop : f.inner.dropWhile (· != '>') = '>' :: f.captured := by
    rw [HtmlForm.captured]
    cases hrest : f.inner.dropWhile (· != '>') with
    | nil =>
      have hall := List.dropWhile_eq_nil_iff.1 hrest '>' hmem
      cases hall
    | cons c t =>
      have hc : (c != '>') = false := by
        have hne : f.inner.dropWhile (· != '>') ≠ [] := by
          rw [hrest]
          exact List.cons_ne_nil c t
        have hhead := List.head_dropWhile_not (· != '>') hne
        simpa only [hrest, List.head_cons] using hhead
      rw [bne_eq_false_iff_eq.1 hc, List.tail_cons]
  rw [← hdrop, List.takeWhile_append_dropWhile]

theorem not_isWord_of_html {c : Char} (h : c = '>' ∨ isHtmlSpace c = true) : isWord c = false := by
  have hcases : c = '>' ∨ c = ' ' ∨ c = '\t' ∨ c = '\n' ∨ c = '\r' ∨ c = '\u000c' := by
    simpa [isHtmlSpace, or_assoc] using h
  rcases hcases with rfl | rfl | rfl | rfl | rfl | rfl <;>
    (rw [isWord, LawfulWordTables.isAlnum_ascii (by decide)]; rfl)

/-- The name of the tag ends there. -/
theorem HtmlForm.head_inner {f : HtmlForm} (h : f.WellFormed) : f.inner.head?.any isWord = false := by
  rw [HtmlForm.inner]
  cases hattrs : f.attrs with
  | nil => exact not_isWord_of_html (.inl rfl)
  | cons x attrs =>
    have hx : x.WellFormed := h.attrs x (by rw [hattrs]; exact List.mem_cons_self)
    obtain ⟨hne, hspace⟩ := hx.space
    rw [List.flatMap_cons, Attr.render]
    cases hs : x.space with
    | nil => exact absurd hs hne
    | cons c t =>
      rw [hs, List.all_cons] at hspace
      exact not_isWord_of_html (.inr (Bool.and_eq_true_iff.1 hspace).1)

theorem HtmlForm.first_FORM {f : HtmlForm} (h : f.WellFormed) (before : Option Char) (rest : Text) :
    ∃ e, Regex.first _FORM ⟨before, f.render ++ rest⟩ = some ([f.captured], e) ∧ e.rest = rest := by
  have hinner := f.inner_eq
  have hsuffix : f.captured <:+ f.inner := by
    rw [hinner]
    exact (List.suffix_cons _ _).trans (List.suffix_append _ _)
  have hedge : (f.inner.takeWhile (· != '>') ++ ['>']).head?.any isWord = false := by
    have hhead := head_inner h
    rw [hinner] at hhead
    have heq : (f.inner.takeWhile (· != '>') ++ ['>']).head? =
        (f.inner.takeWhile (· != '>') ++ '>' :: f.captured).head? := by
      cases f.inner.takeWhile (· != '>') <;> rfl
    rwa [heq]
  have hrender : f.render ++ rest =
      f.opening ++ (f.inner.takeWhile (· != '>') ++ '>' :: (f.captured ++ (f.closing ++ rest))) := by
    rw [HtmlForm.render, hinner]
    simp only [List.append_assoc, List.cons_append]
    rw [← hinner]
  have htag : ∀ c ∈ f.inner.takeWhile (· != '>'), c ≠ '>' := fun c hc ↦ by
    have hbne := List.mem_takeWhile_imp hc
    exact bne_iff_ne.1 hbne
  rw [hrender]
  exact Discovery.first_FORM h.opening h.closing htag hedge (occurs_of_suffix h.inner.1 hsuffix)

theorem findallFrom_FORM {parts : List (Text × HtmlForm)} {rest : Text} (before : Option Char)
    (hforms : ∀ x ∈ parts, x.2.WellFormed ∧ occurs "<form".toList x.1 = false)
    (hrest : occurs "<form".toList rest = false) :
    Regex.findallFrom _FORM before (parts.flatMap (fun x ↦ x.1 ++ x.2.render) ++ rest) 0 =
      parts.map fun x ↦ [x.2.captured] := by
  induction parts generalizing before with
  | nil =>
    obtain ⟨before', hskip⟩ := Regex.findallFrom_of_none (r := _FORM) (s := rest) (t := []) before
      fun b u hu hsuffix hb ↦ first_FORM_eq_none (by
        rw [hb, List.append_nil]
        exact not_startsWord_of_occurs hrest hsuffix)
    rw [List.append_nil] at hskip
    rw [List.flatMap_nil, List.nil_append, hskip]
    rfl
  | cons x parts ih =>
    obtain ⟨⟨hx, hgap⟩, hparts⟩ := List.forall_mem_cons.1 hforms
    obtain ⟨s, hs, -, -⟩ := exists_of_spells "form".toList hx.opening
    have hrender : x.2.render = '<' :: (s ++ x.2.inner ++ x.2.closing) := by
      rw [HtmlForm.render, hs]
      rfl
    rw [List.flatMap_cons, List.append_assoc, List.append_assoc, List.map_cons]
    -- the text before the form, the form, and what is behind it
    obtain ⟨b₁, hskip⟩ := Regex.findallFrom_of_none (r := _FORM) (s := x.1)
      (t := x.2.render ++ (parts.flatMap (fun x ↦ x.1 ++ x.2.render) ++ rest)) before
      fun b u hu hsuffix hb ↦ first_FORM_eq_none (by
        rw [hb, hrender]
        exact not_startsWord_tag "form".toList _ (by decide) hgap hsuffix hu)
    obtain ⟨e, hfirst, he⟩ := HtmlForm.first_FORM hx b₁
      (parts.flatMap (fun x ↦ x.1 ++ x.2.render) ++ rest)
    obtain ⟨b₂, hform⟩ := Regex.findallFrom_of_first b₁ (by rw [hrender]; exact List.cons_ne_nil _ _)
      hfirst he
    rw [hskip, hform, ih b₂ hparts]

/-- **Each form is found**, and nothing else. -/
theorem findall_FORM {page : HtmlPage} (h : page.WellFormed) :
    Regex.findall _FORM page.render = page.forms.map HtmlForm.captured := by
  rw [Regex.findall, HtmlPage.render, findallFrom_FORM none (fun x hx ↦
    ⟨h.forms x.2 (List.mem_map.2 ⟨x, hx, rfl⟩), h.gaps x hx⟩) h.rest, HtmlPage.forms, List.map_map,
    List.map_map]
  rfl

/-! ### Reading a form -/

variable [u : UnicodeTables]

/-- Where the form leads, as it is read. -/
def readTarget (url form_html : Text) : Except Raised Text :=
  match Regex.search _FORM_ACTION form_html with
  | some value => joined url value
  | none => pure url

/-- The method of the form, as it is read. -/
def readMethod (form_html : Text) : Text :=
  u.upper ((Regex.search _FORM_METHOD form_html).getD "GET".toList)

omit w [LawfulWordTables] in
/-- The method that an endpoint shows. -/
def shownMethod (method : Text) : Text := u.upper (if method = [] then "GET".toList else method)

/-- What is read between the first `>` and the closing tag is what the opening tag and the inputs say. -/
structure ReadRight (url : Text) (f : HtmlForm) : Prop where
  target : readTarget url f.captured = f.target url
  method : shownMethod (readMethod f.captured) = shownMethod f.method
  names : Regex.findall _INPUT f.captured = f.names
  place : f.names ≠ [] → (readMethod f.captured = "GET".toList ↔ f.method = "GET".toList)

omit w [LawfulWordTables] u in
theorem formParam_eq_iff {method method' name name' : Text} :
    formParam method name = formParam method' name' ↔
      name = name' ∧ (method = "GET".toList ↔ method' = "GET".toList) := by
  have hplace : ∀ place place' : String, Dict.recipe [("name", .str name), ("in", .text place),
      ("type", .text "string"), ("required", .bool false)] = Dict.recipe [("name", .str name'),
        ("in", .text place'), ("type", .text "string"), ("required", .bool false)] ↔
      name = name' ∧ place = place' := fun place place' ↦ by
    simp [Dict.recipe, Json.text, String.toList_inj]
  rw [formParam, formParam, hplace]
  refine and_congr_right fun _ ↦ ?_
  by_cases hm : method = "GET".toList <;> by_cases hm' : method' = "GET".toList
  · rw [if_neg (not_not.2 hm), if_neg (not_not.2 hm')]
    exact iff_of_true rfl (iff_of_true hm hm')
  · rw [if_neg (not_not.2 hm), if_pos hm']
    exact iff_of_false (by decide) fun h ↦ hm' (h.1 hm)
  · rw [if_pos hm, if_neg (not_not.2 hm')]
    exact iff_of_false (by decide) fun h ↦ hm (h.2 hm')
  · rw [if_pos hm, if_pos hm']
    exact iff_of_true rfl (iff_of_false hm hm')

omit w [LawfulWordTables] u in
theorem formParams_eq_iff {method method' : Text} {names names' : List Text} :
    names.map (formParam method) = names'.map (formParam method') ↔
      names = names' ∧ (names' ≠ [] → (method = "GET".toList ↔ method' = "GET".toList)) := by
  induction names generalizing names' with
  | nil =>
    cases names' with
    | nil => exact iff_of_true rfl ⟨rfl, fun h ↦ absurd rfl h⟩
    | cons name' names' => exact iff_of_false nofun fun h ↦ nomatch h.1
  | cons name names ih =>
    cases names' with
    | nil => exact iff_of_false nofun fun h ↦ nomatch h.1
    | cons name' names' =>
      rw [List.map_cons, List.map_cons, List.cons.injEq, ih, formParam_eq_iff, List.cons.injEq]
      constructor
      · rintro ⟨⟨hname, hmethod⟩, hnames, -⟩
        exact ⟨⟨hname, hnames⟩, fun _ ↦ hmethod⟩
      · rintro ⟨⟨hname, hnames⟩, hmethod⟩
        have hsame := hmethod (List.cons_ne_nil _ _)
        exact ⟨⟨hname, hsame⟩, hnames, fun _ ↦ hsame⟩

variable [d : DigitTables]

omit w [LawfulWordTables] in
theorem post_init_congr {method method' url : Text} {parameters : List Dict}
    (h : shownMethod method = shownMethod method') :
    DiscoveredEndpoint.post_init { method, url, provenance := .CRAWL, parameters } =
      DiscoveredEndpoint.post_init { method := method', url, provenance := .CRAWL, parameters } := by
  rw [shownMethod, shownMethod] at h
  rw [DiscoveredEndpoint.post_init, DiscoveredEndpoint.post_init]
  simp only [h]

omit [LawfulWordTables] in
/-- A form that leads to the host of the seed has an endpoint. -/
theorem formRow_eq_some_iff {seed_host form_html action : Text} {ep : DiscoveredEndpoint} :
    formRow seed_host form_html action = .ok (some ep) ↔ _host action = .ok seed_host ∧
      DiscoveredEndpoint.post_init {
        method := readMethod form_html, url := action, provenance := .CRAWL
        parameters := (Regex.findall _INPUT form_html).map (formParam (readMethod form_html)) } = .ok ep := by
  rw [formRow]
  cases hhost : _host action with
  | error exc => exact iff_of_false (by rintro ⟨⟩) (by rintro ⟨⟨⟩, -⟩)
  | ok host =>
    show (if host ≠ seed_host then .ok none else DiscoveredEndpoint.post_init {
        method := readMethod form_html, url := action, provenance := .CRAWL
        parameters := (Regex.findall _INPUT form_html).map (formParam (readMethod form_html)) } >>=
          fun row ↦ .ok (some row)) = Except.ok (some ep) ↔ _
    by_cases hsame : host = seed_host
    · rw [if_neg (not_not.2 hsame), hsame, and_iff_right rfl]
      cases DiscoveredEndpoint.post_init {
        method := readMethod form_html, url := action, provenance := .CRAWL
        parameters := (Regex.findall _INPUT form_html).map (formParam (readMethod form_html)) } with
      | error exc => exact iff_of_false (by rintro ⟨⟩) (by rintro ⟨⟩)
      | ok row =>
        show Except.ok (some row) = Except.ok (some ep) ↔ _
        rw [Except.ok.injEq, Except.ok.injEq, Option.some_inj]
    · rw [if_pos hsame]
      exact iff_of_false (by rintro ⟨⟩) fun h ↦ hsame (Except.ok.inj h.1)

omit [LawfulWordTables] in
/-- **What is read of a form** is the endpoint that stands for it exactly if it is read right. -/
theorem formEndpoint_eq_iff {seed_host url target : Text} {f : HtmlForm} (htarget : f.target url = .ok target)
    (hhost : _host target = .ok seed_host) :
    (∃ ep, formEndpoint seed_host url f.captured = .ok (some ep) ∧ f.endpoint url = .ok ep) ↔
      ReadRight url f := by
  have hread : formEndpoint seed_host url f.captured =
      readTarget url f.captured >>= formRow seed_host f.captured := formEndpoint_eq seed_host url f.captured
  have hsplit : Splittable target := host_returns_iff.1 ⟨seed_host, hhost⟩
  obtain ⟨row, hrow, hrowurl, hrowmethod, hrowparams⟩ := DiscoveredEndpoint.post_init_of_splittable
    { method := f.method, url := target, provenance := .CRAWL
      parameters := f.names.map (formParam f.method) } hsplit
  have hendpoint : f.endpoint url = .ok row := by
    rw [HtmlForm.endpoint, htarget]
    exact hrow
  constructor
  · rintro ⟨ep, hep, hep'⟩
    obtain rfl : row = ep := Except.ok.inj (hendpoint.symm.trans hep')
    rw [hread] at hep
    obtain ⟨action, haction, hform⟩ := exists_of_bind_eq_ok hep
    obtain ⟨hactionhost, hpost⟩ := formRow_eq_some_iff.1 hform
    obtain ⟨row', hrow', hurl, hmethod, hparams⟩ := DiscoveredEndpoint.post_init_of_splittable
      { method := readMethod f.captured, url := action, provenance := .CRAWL
        parameters := (Regex.findall _INPUT f.captured).map (formParam (readMethod f.captured)) }
      (host_returns_iff.1 ⟨seed_host, hactionhost⟩)
    obtain rfl : row' = row := Except.ok.inj (hrow'.symm.trans hpost)
    obtain ⟨hnames, hplace⟩ := formParams_eq_iff.1 (hparams.symm.trans hrowparams)
    have hsame : action = target := hurl.symm.trans hrowurl
    exact ⟨haction.trans ((congrArg _ hsame).trans htarget.symm), hmethod.symm.trans hrowmethod,
      hnames, hplace⟩
  · intro h
    refine ⟨row, ?_, hendpoint⟩
    rw [hread, h.target, htarget]
    refine formRow_eq_some_iff.2 ⟨hhost, ?_⟩
    rw [formParams_eq_iff.2 ⟨h.names, h.place⟩, post_init_congr h.method]
    exact hrow

/-! ### Reading a page -/

omit w [LawfulWordTables] u d in
/-- If nothing is dropped, everything is there. -/
theorem eq_map_some_of_filterMap {α : Type} {l : List (Option α)} {ys : List α} (h : l.filterMap id = ys)
    (hlength : ys.length = l.length) : l = ys.map some := by
  induction l generalizing ys with
  | nil =>
    rw [← h]
    rfl
  | cons x l ih =>
    cases x with
    | none =>
      have hle : (l.filterMap id).length ≤ l.length := List.length_filterMap_le id l
      rw [List.filterMap_cons_none rfl] at h
      rw [h, hlength, List.length_cons] at hle
      exact absurd hle (Nat.not_succ_le_self _)
    | some y =>
      rw [List.filterMap_cons_some (f := id) (b := y) rfl] at h
      rw [← h, List.length_cons, List.length_cons] at hlength
      rw [← h, List.map_cons, ← ih rfl (Nat.succ.inj hlength)]

/-- All forms of a page give their endpoints exactly if all are read right. -/
theorem mapM_formEndpoint_iff {seed_host url : Text} {page : HtmlPage} (hpage : page.WellFormed)
    (hhost : ∀ f ∈ page.forms, ∃ target, f.target url = .ok target ∧ _host target = .ok seed_host) :
    (∃ eps rows, page.forms.mapM (HtmlForm.endpoint url) = .ok eps ∧
      (Regex.findall _FORM page.render).mapM (formEndpoint seed_host url) = .ok rows ∧
      rows.filterMap id = eps) ↔ ∀ f ∈ page.forms, ReadRight url f := by
  rw [findall_FORM hpage]
  constructor
  · rintro ⟨eps, rows, heps, hrows, hall⟩ f hf
    have hvalues := mapM_eq_ok_iff.1 heps
    have hreads := mapM_eq_ok_iff.1 hrows
    have hlength : eps.length = rows.length := by
      have h₁ := congrArg List.length hvalues
      have h₂ := congrArg List.length hreads
      simp only [List.length_map] at h₁ h₂
      exact h₁.symm.trans h₂
    rw [eq_map_some_of_filterMap hall hlength, List.map_map, List.map_map] at hreads
    -- the form, its endpoint, and what was read of it stand at one place
    obtain ⟨i, hi, rfl⟩ := List.getElem_of_mem hf
    obtain ⟨target, htarget, hsame⟩ := hhost _ hf
    have hi' : i < eps.length := by
      have h₁ := congrArg List.length hvalues
      simp only [List.length_map] at h₁
      exact h₁ ▸ hi
    refine (formEndpoint_eq_iff htarget hsame).1 ⟨eps[i], ?_, ?_⟩
    · have h := congrArg (·[i]?) hreads
      simpa [List.getElem?_eq_getElem hi, List.getElem?_eq_getElem hi'] using h
    · have h := congrArg (·[i]?) hvalues
      simpa [List.getElem?_eq_getElem hi, List.getElem?_eq_getElem hi'] using h
  · intro hall
    have hread : ∀ f ∈ page.forms, ∃ ep, f.endpoint url = .ok ep := fun f hf ↦ by
      obtain ⟨target, htarget, hsame⟩ := hhost f hf
      obtain ⟨ep, -, hep⟩ := (formEndpoint_eq_iff htarget hsame).2 (hall f hf)
      exact ⟨ep, hep⟩
    obtain ⟨eps, heps⟩ := mapM_isOk.2 hread
    refine ⟨eps, eps.map some, heps, ?_, ?_⟩
    · have hvalues := mapM_eq_ok_iff.1 heps
      have hsome : ∀ f ∈ page.forms, (formEndpoint seed_host url ∘ HtmlForm.captured) f =
          (Except.map some ∘ HtmlForm.endpoint url) f := fun f hf ↦ by
        obtain ⟨target, htarget, hsame⟩ := hhost f hf
        obtain ⟨ep, hform, hep⟩ := (formEndpoint_eq_iff htarget hsame).2 (hall f hf)
        rw [Function.comp_apply, Function.comp_apply, hform, hep]
        rfl
      rw [mapM_eq_ok_iff, List.map_map, List.map_congr_left hsome, ← List.map_map, hvalues,
        List.map_map, List.map_map]
      rfl
    · rw [List.filterMap_map]
      exact List.filterMap_some

omit [LawfulWordTables] in
/-- What a visit adds for the forms of a page. -/
theorem rows_of_visit {seed_host url : Text} {max_depth : ℤ} {depth : ℕ} {seen : List Text}
    {resp : GuardedResponse} {own : DiscoveredEndpoint} {eps : List DiscoveredEndpoint}
    {entries : List (Text × ℕ)} (hown : pageEndpoint url = .ok own) (hhtml : isHtml resp = true)
    (h : visit seed_host max_depth url depth seen resp = .ok (own :: eps, entries)) :
    ∃ rows, (Regex.findall _FORM resp.text).mapM (formEndpoint seed_host url) = .ok rows ∧
      rows.filterMap id = eps := by
  rw [visit_html hown hhtml] at h
  obtain ⟨rows, hrows, hrest⟩ := exists_of_bind_eq_ok h
  obtain ⟨es, -, hresult⟩ := exists_of_bind_eq_ok hrest
  obtain ⟨hall, -⟩ := Prod.mk.inj (Except.ok.inj hresult)
  exact ⟨rows, hrows, (List.cons.inj hall).2⟩

/-- **Which pages are read right**: on a page of forms that lead to the host of the seed, the crawler adds for
each form exactly the endpoint that stands for it, if and only if each is read right, and no link ends the
search. -/
theorem visit_forms_iff {seed_host url : Text} {max_depth : ℤ} {depth : ℕ} {seen : List Text}
    {resp : GuardedResponse} {page : HtmlPage} (hurl : Splittable url) (hhtml : isHtml resp = true)
    (htext : resp.text = page.render) (hpage : page.WellFormed)
    (hhost : ∀ f ∈ page.forms, ∃ target, f.target url = .ok target ∧ _host target = .ok seed_host) :
    (∃ own eps entries, pageEndpoint url = .ok own ∧
      page.forms.mapM (HtmlForm.endpoint url) = .ok eps ∧
      visit seed_host max_depth url depth seen resp = .ok (own :: eps, entries)) ↔
    (∀ f ∈ page.forms, ReadRight url f) ∧
      ((depth : ℤ) < max_depth → ∀ href ∈ Regex.findall _HREF resp.text, GoodLink url href) := by
  rw [← mapM_formEndpoint_iff hpage hhost, ← htext]
  constructor
  · rintro ⟨own, eps, entries, hown, heps, hvisit⟩
    obtain ⟨-, hlinks⟩ := (visit_returns_iff hurl).1 ⟨_, hvisit⟩
    obtain ⟨rows, hrows, hall⟩ := rows_of_visit hown hhtml hvisit
    exact ⟨⟨eps, rows, heps, hrows, hall⟩, hlinks hhtml⟩
  · rintro ⟨⟨eps, rows, heps, hrows, hall⟩, hlinks⟩
    obtain ⟨own, hown, -⟩ := DiscoveredEndpoint.post_init_of_splittable
      { method := "GET".toList, url, provenance := .CRAWL } hurl
    obtain ⟨es, hes⟩ := mapM_links_returns_iff.2 hlinks
    refine ⟨own, eps, es.flatten, hown, heps, ?_⟩
    rw [visit_html hown hhtml, hrows]
    show (_ >>= _) = _
    rw [hes, ← hall]
    rfl

end

section

attribute [local instance] asciiTables asciiWords asciiDigits

/-- A page of the host with one form. -/
def formResponse (f : HtmlForm) : GuardedResponse where
  status_code := 200
  headers := [("content-type".toList, "text/html".toList)]
  text := HtmlPage.render { parts := [([], f)] }
  url := "http://app.example/".toList
  request_method := "GET".toList
  request_headers := []
  request_body := none

/-- A form for searching. -/
def searchForm : HtmlForm where
  attrs := []
  content := [.input [{ name := "name".toList, value := "q".toList }]]

theorem searchForm_wellFormed : searchForm.WellFormed where
  opening := by decide
  closing := by decide
  attrs := nofun
  inner := by decide
  inputs attrs h x hx := by
    obtain rfl := Piece.input.inj (List.mem_singleton.1 h)
    obtain rfl := List.mem_singleton.1 hx
    exact ⟨by decide, by decide, by decide⟩

/-- It is read right. -/
theorem visit_forms_search : ∃ own eps entries, pageEndpoint "http://app.example/".toList = .ok own ∧
    [searchForm].mapM (HtmlForm.endpoint "http://app.example/".toList) = .ok eps ∧
    visit "app.example".toList 3 "http://app.example/".toList 0 [] (formResponse searchForm) =
      .ok (own :: eps, entries) := by
  have hwell : HtmlPage.WellFormed { parts := [([], searchForm)] } :=
    ⟨fun f hf ↦ List.mem_singleton.1 hf ▸ searchForm_wellFormed,
      fun x hx ↦ List.mem_singleton.1 hx ▸ (by decide), by decide⟩
  have htext : (formResponse searchForm).text = HtmlPage.render { parts := [([], searchForm)] } := rfl
  refine (visit_forms_iff ⟨_, rfl⟩ (by decide) htext hwell ?_).2 ⟨?_, ?_⟩
  · intro f hf
    obtain rfl := List.mem_singleton.1 hf
    exact ⟨_, rfl, by decide⟩
  · intro f hf
    obtain rfl := List.mem_singleton.1 hf
    exact ⟨by decide, by decide, by decide, by decide⟩
  · have hnone : Regex.findall _HREF (formResponse searchForm).text = [] := by decide
    rw [hnone]
    exact fun _ ↦ nofun

/-- A form for logging in. -/
def loginForm : HtmlForm where
  attrs := [{ name := "action".toList, value := "/login".toList },
    { name := "method".toList, value := "post".toList }]
  content := [.input [{ name := "name".toList, value := "user".toList }]]

theorem loginForm_wellFormed : loginForm.WellFormed where
  opening := by decide
  closing := by decide
  attrs x hx := by
    rcases List.mem_cons.1 hx with rfl | hx
    · exact ⟨by decide, by decide, by decide⟩
    · obtain rfl := List.mem_singleton.1 hx
      exact ⟨by decide, by decide, by decide⟩
  inner := by decide
  inputs attrs h x hx := by
    obtain rfl := Piece.input.inj (List.mem_singleton.1 h)
    obtain rfl := List.mem_singleton.1 hx
    exact ⟨by decide, by decide, by decide⟩

/-- It is not: its method is not seen. -/
theorem login_misread : HtmlPage.WellFormed { parts := [([], loginForm)] } ∧
    ¬∃ own eps entries, pageEndpoint "http://app.example/".toList = .ok own ∧
      [loginForm].mapM (HtmlForm.endpoint "http://app.example/".toList) = .ok eps ∧
      visit "app.example".toList 3 "http://app.example/".toList 0 [] (formResponse loginForm) =
        .ok (own :: eps, entries) := by
  have hwell : HtmlPage.WellFormed { parts := [([], loginForm)] } :=
    ⟨fun f hf ↦ List.mem_singleton.1 hf ▸ loginForm_wellFormed,
      fun x hx ↦ List.mem_singleton.1 hx ▸ (by decide), by decide⟩
  refine ⟨hwell, ?_⟩
  rintro ⟨own, eps, entries, hown, heps, hvisit⟩
  obtain ⟨rows, hrows, hall⟩ := rows_of_visit hown (by decide) hvisit
  have hread := (mapM_formEndpoint_iff hwell fun f hf ↦ by
    obtain rfl := List.mem_singleton.1 hf
    exact ⟨_, rfl, by decide⟩).1 ⟨eps, rows, heps, hrows, hall⟩ loginForm List.mem_cons_self
  exact absurd hread.method (by decide)

end

end Discovery

end Sentrik
