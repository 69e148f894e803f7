import Sentrik.Library.Bytes
import Sentrik.Library.Keyed

/-!
# PDF reports

`text_to_pdf` renders the text of a report as a PDF file: the lines of the text are wrapped to a width,
the wrapped lines cut into pages, every page becomes a content stream that shows its lines as string
operands, and the objects are serialized with a cross-reference table.
-/

namespace PdfReport

/-! ### The layout -/

def PAGE_W : ℕ := 612
def PAGE_H : ℕ := 792
def MARGIN : ℕ := 54
def FONT_SIZE : ℕ := 9
def LEADING : ℕ := 12
def MAX_CHARS : ℕ := 95

/-- `str.replace` of one character. -/
def replace (c : Char) (new : Text) (t : Text) : Text := t.flatMap fun d ↦ if d = c then new else [d]

/-- `str.rfind` of one character. -/
def rfind (c : Char) : Text → Option ℕ
  | [] => none
  | d :: t =>
    match rfind c t with
    | some i => some (i + 1)
    | none => if d = c then some 0 else none

/-- `str.rstrip` of one character. -/
def rstrip (c : Char) (t : Text) : Text := (t.reverse.dropWhile (· = c)).reverse

/-- `_escape`. -/
def escape (text : Text) : Text :=
  replace ')' "\\)".toList (replace '(' "\\(".toList (replace '\\' "\\\\".toList text))

/-- Where `_wrap` cuts a line that is too long: at the last blank, unless that is the first character or
there is none. -/
def cutOf (line : Text) (width : ℕ) : ℕ :=
  match rfind ' ' (line.take width) with
  | some (i + 1) => i + 1
  | _ => width

theorem cutOf_pos (line : Text) {width : ℕ} (hwidth : 0 < width) : 0 < cutOf line width := by
  unfold cutOf
  split
  · exact Nat.succ_pos _
  · exact hwidth

theorem length_dropWhile_drop_lt {line : Text} {cut : ℕ} (hcut : 0 < cut) (hline : 0 < line.length)
    (p : Char → Bool) : ((line.drop cut).dropWhile p).length < line.length := by
  have hle : ((line.drop cut).dropWhile p).length ≤ (line.drop cut).length :=
    (List.dropWhile_suffix p).length_le
  rw [List.length_drop] at hle
  omega

section

variable [u : UnicodeTables]

/-- The loop of `_wrap`. -/
def wrapLoop (line : Text) (out : List Text) : List Text :=
  if line.length > MAX_CHARS then
    wrapLoop ((line.drop (cutOf line MAX_CHARS)).dropWhile u.isSpace)
      (out ++ [line.take (cutOf line MAX_CHARS)])
  else out ++ [line]
termination_by line.length
decreasing_by exact length_dropWhile_drop_lt (cutOf_pos line (by decide)) (by omega) u.isSpace

/-- `_wrap`. -/
def wrap (line : Text) : List Text :=
  let line := rstrip '\n' (replace '\t' "    ".toList line)
  if line = [] then [[]] else wrapLoop line []

def lines_per_page : ℕ := (PAGE_H - 2 * MARGIN) / LEADING

/-- The slices of `_paginate`. -/
def slices (wrapped : List Text) : List (List Text) :=
  (List.range' 0 ((wrapped.length + lines_per_page - 1) / lines_per_page) lines_per_page).map fun i ↦
    (wrapped.drop i).take lines_per_page

/-- `_paginate`. -/
def paginate (text : Text) : List (List Text) :=
  let pages := slices ((Text.split '\n' text).flatMap wrap)
  if pages = [] then [[[]]] else pages

end

/-! ### The content stream of a page -/

/-- The operators that show the lines of a page. -/
def showLines : Bool → List Text → List Text
  | _, [] => []
  | first, ln :: page_lines =>
    (if first then "(".toList ++ escape ln ++ ") Tj".toList
      else "T* (".toList ++ escape ln ++ ") Tj".toList) :: showLines false page_lines

/-- The lines of a content stream. -/
def parts (page_lines : List Text) : List Text :=
  ["BT".toList, "/F1 ".toList ++ Text.decimal FONT_SIZE ++ " Tf".toList,
    Text.decimal LEADING ++ " TL".toList,
    Text.decimal MARGIN ++ " ".toList ++ Text.decimal (PAGE_H - MARGIN) ++ " Td".toList] ++
    showLines true page_lines ++ ["ET".toList]

/-- The content stream of a page. -/
def stream (page_lines : List Text) : Bytes :=
  Text.latin1 (List.intercalate "\n".toList (parts page_lines))

/-! ### The objects -/

/-- What the loop over the pages has put together. -/
structure Layout where
  next_id : ℕ
  page_obj_ids : List ℕ
  content_streams : List (ℕ × Bytes)

/-- One page: its content stream and the number of its page object. -/
def Layout.addPage (s : Layout) (page_lines : List Text) : Layout where
  next_id := s.next_id + 2
  page_obj_ids := s.page_obj_ids ++ [s.next_id + 1]
  content_streams := s.content_streams ++ [(s.next_id, stream page_lines)]

def font_obj : ℕ := 3

/-- The page loop. -/
def layout (pages : List (List Text)) : Layout := pages.foldl Layout.addPage ⟨4, [], []⟩

def catalog : Bytes := Text.utf8 "<< /Type /Catalog /Pages 2 0 R >>".toList

/-- The entries of `/Kids`. -/
def kids (page_obj_ids : List ℕ) : Text :=
  List.intercalate " ".toList (page_obj_ids.map fun pid ↦ Text.decimal pid ++ " 0 R".toList)

def pages_obj (page_obj_ids : List ℕ) : Bytes :=
  Text.utf8 ("<< /Type /Pages /Count ".toList ++ Text.decimal page_obj_ids.length ++
    " /Kids [".toList ++ kids page_obj_ids ++ "] >>".toList)

def font : Bytes := Text.utf8 "<< /Type /Font /Subtype /Type1 /BaseFont /Helvetica >>".toList

/-- The body of a content stream's object. -/
def contentBody (stream : Bytes) : Bytes :=
  Text.utf8 ("<< /Length ".toList ++ Text.decimal stream.length ++ " >>\nstream\n".toList) ++ stream ++
    Text.utf8 "\nendstream".toList

/-- The body of a page object. -/
def pageBody (content_id : ℕ) : Bytes :=
  Text.utf8 ("<< /Type /Page /Parent 2 0 R /MediaBox [0 0 ".toList ++ Text.decimal PAGE_W ++
    " ".toList ++ Text.decimal PAGE_H ++ "] /Resources << /Font << /F1 ".toList ++
    Text.decimal font_obj ++ " 0 R >> >> /Contents ".toList ++ Text.decimal content_id ++
    " 0 R >>".toList)

/-- A dictionary from object numbers, in insertion order. -/
abbrev ObjBytes := List (ℕ × Bytes)

/-- One page's two objects. -/
def addObjects (obj_bytes : ObjBytes) (page : (ℕ × Bytes) × ℕ) : ObjBytes :=
  Keyed.set Prod.fst (Keyed.set Prod.fst obj_bytes (page.1.1, contentBody page.1.2))
    (page.2, pageBody page.1.1)

/-- The dictionary of the objects. -/
def objBytes (s : Layout) : ObjBytes :=
  (s.content_streams.zip s.page_obj_ids).foldl addObjects
    [(1, catalog), (2, pages_obj s.page_obj_ids), (font_obj, font)]

/-! ### Serializing -/

def header : Bytes := Text.utf8 "%PDF-1.4\n%".toList ++ [0xe2, 0xe3, 0xcf, 0xd3] ++ Text.utf8 "\n".toList

/-- One object, and the position at which it is written. -/
def writeObject (obj_bytes : ObjBytes) (s : Bytes × List (ℕ × ℕ)) (oid : ℕ) :
    Bytes × List (ℕ × ℕ) :=
  (s.1 ++ (Text.utf8 (Text.decimal oid ++ " 0 obj\n".toList) ++ (obj_bytes.lookup oid).getD [] ++
    Text.utf8 "\nendobj\n".toList), Keyed.set Prod.fst s.2 (oid, s.1.length))

/-- The row of an object number. -/
def xrefRow (offsets : List (ℕ × ℕ)) (oid : ℕ) : Bytes :=
  match offsets.lookup oid with
  | some offset => Text.utf8 (Text.padded 10 offset ++ " 00000 n \n".toList)
  | none => Text.utf8 "0000000000 65535 f \n".toList

/-- Header, objects, table and trailer. -/
def serialize (obj_bytes : ObjBytes) : Bytes :=
  let oids := (obj_bytes.map Prod.fst).insertionSort (· ≤ ·)
  let written := oids.foldl (writeObject obj_bytes) (header, [])
  let xref_pos := written.1.length
  let n := (obj_bytes.map Prod.fst).foldl max 0 + 1
  written.1 ++ Text.utf8 ("xref\n0 ".toList ++ Text.decimal n ++ "\n".toList) ++
    Text.utf8 "0000000000 65535 f \n".toList ++ (List.range' 1 (n - 1)).flatMap (xrefRow written.2) ++
    Text.utf8 ("trailer\n<< /Size ".toList ++ Text.decimal n ++
      " /Root 1 0 R >>\nstartxref\n".toList ++ Text.decimal xref_pos ++ "\n%%EOF\n".toList)

/-- `text_to_pdf`. -/
def text_to_pdf [UnicodeTables] (text : Text) : Bytes := serialize (objBytes (layout (paginate text)))

end PdfReport
