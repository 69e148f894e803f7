import Sentrik.Library.CrossReference
import Sentrik.Services.PdfReport
import Mathlib.Data.List.Sort

/-!
# The structure of the PDF file

`text_to_pdf` collects its objects in a dictionary, sorts their numbers, and writes them with the
positions they got. The dictionary is the one that numbers the objects from one without a gap, so what is
written is the cross-referenced file of their bodies, and these form a page tree: as many kids as `/Count`
says, each a page with a content stream of its own, of the length its dictionary says.
-/

namespace PdfReport

open CrossReference

/-! ### The page tree -/

/-- A page: the numbers of its two objects, and its content stream. -/
structure PageEntry where
  page_id : ℕ
  content_id : ℕ
  stream : Bytes

/-- The objects with these bodies, numbered from one, form a page tree of these pages. -/
structure PageTree (bodies : List Bytes) (pages : List PageEntry) : Prop where
  /-- Object one is the catalog, and refers to object two. -/
  root : bodies[0]? = some (Text.utf8 "<< /Type /Catalog /Pages 2 0 R >>".toList)
  /-- Object two counts and lists the pages. -/
  kids : bodies[1]? = some (Text.utf8 ("<< /Type /Pages /Count ".toList ++
    Text.decimal pages.length ++ " /Kids [".toList ++ List.intercalate " ".toList
      (pages.map fun p ↦ Text.decimal p.page_id ++ " 0 R".toList) ++ "] >>".toList))
  /-- Each kid is a page object, whose content is an object of its own. -/
  page : ∀ p ∈ pages, ∃ media : Text, bodies[p.page_id - 1]? =
    some (Text.utf8 ("<< /Type /Page /Parent 2 0 R ".toList ++ media ++ " /Contents ".toList ++
      Text.decimal p.content_id ++ " 0 R >>".toList))
  /-- The content of a page is its stream, and the length given is that of the stream. -/
  content : ∀ p ∈ pages, bodies[p.content_id - 1]? =
    some (Text.utf8 ("<< /Length ".toList ++ Text.decimal p.stream.length ++
      " >>\nstream\n".toList) ++ p.stream ++ Text.utf8 "\nendstream".toList)
  /-- No two pages share an object. -/
  distinct : (pages.flatMap fun p ↦ [p.content_id, p.page_id]).Nodup
  /-- Besides the catalog, the list of pages and the font there are no other objects. -/
  covers : ∀ k, 3 < k → k ≤ bodies.length → ∃ p ∈ pages, k = p.content_id ∨ k = p.page_id

/-! ### What the page loop puts together -/

/-- The pages, with their two objects numbered from `k`. -/
def entriesFrom : ℕ → List (List Text) → List PageEntry
  | _, [] => []
  | k, page_lines :: pages => ⟨k + 1, k, stream page_lines⟩ :: entriesFrom (k + 2) pages

/-- The bodies of the pages' objects. -/
def bodiesOf (entries : List PageEntry) : List Bytes :=
  entries.flatMap fun p ↦ [contentBody p.stream, pageBody p.content_id]

/-- The bodies of all objects. -/
def bodies (pages : List (List Text)) : List Bytes :=
  [catalog, pages_obj ((entriesFrom 4 pages).map PageEntry.page_id), font] ++
    bodiesOf (entriesFrom 4 pages)

theorem foldl_addPage (pages : List (List Text)) (s : Layout) :
    pages.foldl Layout.addPage s =
      { next_id := s.next_id + 2 * pages.length
        page_obj_ids := s.page_obj_ids ++ (entriesFrom s.next_id pages).map PageEntry.page_id
        content_streams := s.content_streams ++
          (entriesFrom s.next_id pages).map fun p ↦ (p.content_id, p.stream) } := by
  induction pages generalizing s with
  | nil => simp [entriesFrom]
  | cons page_lines pages ih =>
    rw [List.foldl_cons, ih]
    simp only [Layout.addPage, entriesFrom, List.map_cons, List.append_assoc, List.length_cons,
      List.cons_append, List.nil_append, Layout.mk.injEq, and_true]
    omega

theorem length_bodiesOf (entries : List PageEntry) :
    (bodiesOf entries).length = 2 * entries.length := by
  induction entries with
  | nil => rfl
  | cons p entries ih =>
    rw [bodiesOf, List.flatMap_cons, List.length_append, ← bodiesOf, ih, List.length_cons]
    show 2 + 2 * entries.length = 2 * (entries.length + 1)
    omega

/-- Adding the pages' objects to objects numbered from one goes on numbering. -/
theorem foldl_addObjects (pages : List (List Text)) (before : List Bytes) :
    (((entriesFrom (before.length + 1) pages).map fun p ↦ (p.content_id, p.stream)).zip
      ((entriesFrom (before.length + 1) pages).map PageEntry.page_id)).foldl addObjects
        (numbered 1 before) =
      numbered 1 (before ++ bodiesOf (entriesFrom (before.length + 1) pages)) := by
  induction pages generalizing before with
  | nil => simp [entriesFrom, bodiesOf]
  | cons page_lines pages ih =>
    -- the two new numbers are not among the earlier ones
    have hset : ∀ (l : List Bytes) (body : Bytes),
        Keyed.set Prod.fst (numbered 1 l) (l.length + 1, body) = numbered 1 (l ++ [body]) := by
      intro l body
      rw [Keyed.set_of_notMem, numbered_append, Nat.add_comm l.length 1]
      · rfl
      · rw [map_fst_numbered, List.mem_range'_1]
        show ¬(1 ≤ l.length + 1 ∧ l.length + 1 < 1 + l.length)
        omega
    have hstep : addObjects (numbered 1 before)
        ((before.length + 1, stream page_lines), before.length + 1 + 1) =
          numbered 1 (before ++ [contentBody (stream page_lines), pageBody (before.length + 1)]) := by
      have hnext := hset (before ++ [contentBody (stream page_lines)]) (pageBody (before.length + 1))
      rw [List.append_assoc, List.length_append] at hnext
      rw [addObjects, hset]
      exact hnext
    have hlater := ih (before ++ [contentBody (stream page_lines), pageBody (before.length + 1)])
    have hlength : (before ++ [contentBody (stream page_lines), pageBody (before.length + 1)]).length +
        1 = before.length + 1 + 2 := by
      rw [List.length_append]
      show before.length + 2 + 1 = before.length + 1 + 2
      omega
    rw [hlength] at hlater
    simp only [entriesFrom, List.map_cons, List.zip_cons_cons, List.foldl_cons]
    rw [hstep, hlater, List.append_assoc]
    rfl

/-- The dictionary of the objects numbers their bodies from one. -/
theorem objBytes_layout (pages : List (List Text)) :
    objBytes (layout pages) = numbered 1 (bodies pages) := by
  have hloop := foldl_addObjects pages
    [catalog, pages_obj ((entriesFrom 4 pages).map PageEntry.page_id), font]
  rw [objBytes, layout, foldl_addPage]
  exact hloop

/-! ### Serializing numbered objects -/

theorem insertionSort_range' (s n : ℕ) :
    (List.range' s n).insertionSort (· ≤ ·) = List.range' s n := by
  have hsorted : (List.range' s n).Pairwise (· ≤ ·) :=
    (List.pairwise_lt_range' (s := s)).imp Nat.le_of_lt
  exact hsorted.insertionSort_eq

theorem foldl_max_range' (n : ℕ) : (List.range' 1 n).foldl max 0 = n := by
  induction n with
  | zero => rfl
  | succ n ih =>
    rw [List.range'_1_concat, List.foldl_append, ih]
    show max n (1 + n) = n + 1
    omega

/-- After some of the objects are written, the file ends with the last of them, and the positions are
those of the cross-referenced file. -/
theorem foldl_writeObject (all : List Bytes) {m : ℕ} (hm : m ≤ all.length) :
    (List.range' 1 m).foldl (writeObject (numbered 1 all)) (header, []) =
      (header ++ ((objects all).take m).flatten,
        numbered 1 ((List.range m).map (offset header all))) := by
  induction m with
  | zero => rw [List.range'_zero, List.foldl_nil, List.take_zero, List.flatten_nil, List.append_nil]; rfl
  | succ m ih =>
    have hlt : m < all.length := hm
    have hbody : (numbered 1 all).lookup (1 + m) = some all[m] := by
      rw [lookup_numbered, List.getElem?_eq_getElem hlt]
    have hobject : (objects all)[m]? = some (object (m + 1) all[m]) := by
      rw [getElem?_objects, List.getElem?_eq_getElem hlt]
      rfl
    have htake : (objects all).take (m + 1) = (objects all).take m ++ [object (m + 1) all[m]] := by
      rw [List.take_add_one, hobject]
      rfl
    have hbytes : Text.utf8 (Text.decimal (1 + m) ++ " 0 obj\n".toList) ++ all[m] ++
        Text.utf8 "\nendobj\n".toList = object (m + 1) all[m] := by
      have hline : Text.utf8 (Text.decimal (1 + m) ++ " 0 obj\n".toList) = objectLine (m + 1) ++ [10] := by
        rw [objectLine, Nat.add_comm 1 m, Text.utf8_append, Text.utf8_append, List.append_assoc]
        rfl
      rw [hline, object]
      simp only [List.append_assoc, List.cons_append, List.nil_append]
    have hnumber : 1 + m ∉ (numbered 1 ((List.range m).map (offset header all))).map Prod.fst := by
      rw [map_fst_numbered, List.length_map, List.length_range, List.mem_range'_1]
      omega
    rw [List.range'_1_concat, List.foldl_append, ih (by omega), List.foldl_cons, List.foldl_nil,
      writeObject, hbody, Option.getD_some, hbytes, Keyed.set_of_notMem hnumber,
      length_before, htake, List.flatten_append, List.flatten_singleton, ← List.append_assoc,
      List.range_succ, List.map_append, numbered_append, List.length_map, List.length_range]
    rfl

/-- Objects numbered from one are serialized as a cross-referenced file. -/
theorem serialize_numbered (all : List Bytes) : serialize (numbered 1 all) = write header all := by
  have hwritten := foldl_writeObject all le_rfl
  have htake : (objects all).take all.length = objects all :=
    List.take_of_length_le (by rw [objects, List.length_mapIdx])
  rw [htake] at hwritten
  have hrows : (List.range' 1 all.length).flatMap
      (xrefRow (numbered 1 ((List.range all.length).map (offset header all)))) =
        ((List.range all.length).map fun k ↦ entry (offset header all k)).flatten := by
    rw [List.range'_eq_map_range, List.flatMap_map, ← List.flatMap_def]
    refine List.flatMap_congr fun k hk ↦ ?_
    rw [xrefRow, lookup_numbered, List.getElem?_map, List.getElem?_range (List.mem_range.1 hk)]
    rfl
  rw [serialize, map_fst_numbered, insertionSort_range', hwritten, foldl_max_range']
  dsimp only
  rw [Nat.add_sub_cancel, hrows, write, rows, List.flatten_cons, tableHead, trailer, freeEntry]
  simp only [List.append_assoc]

/-! ### The file -/

theorem mem_entriesFrom {k : ℕ} {pages : List (List Text)} {p : PageEntry}
    (h : p ∈ entriesFrom k pages) : ∃ i < pages.length, p.content_id = k + 2 * i ∧
      p.page_id = k + 2 * i + 1 ∧ (bodiesOf (entriesFrom k pages))[2 * i]? = some (contentBody p.stream) ∧
      (bodiesOf (entriesFrom k pages))[2 * i + 1]? = some (pageBody p.content_id) := by
  induction pages generalizing k with
  | nil => exact absurd h List.not_mem_nil
  | cons page_lines pages ih =>
    rcases List.mem_cons.1 h with rfl | h
    · exact ⟨0, Nat.succ_pos _, rfl, rfl, rfl, rfl⟩
    · obtain ⟨i, hi, hcontent, hpage, hbody, hbody'⟩ := ih h
      refine ⟨i + 1, Nat.succ_lt_succ hi, by omega, by omega, ?_, ?_⟩
      · exact hbody
      · exact hbody'

/-- Every number in the range of the pages' objects is one of theirs. -/
theorem exists_entry {k n : ℕ} {pages : List (List Text)} (hlo : k ≤ n)
    (hhi : n < k + 2 * pages.length) :
    ∃ p ∈ entriesFrom k pages, n = p.content_id ∨ n = p.page_id := by
  induction pages generalizing k with
  | nil => exact absurd hhi (by show ¬n < k + 2 * 0; omega)
  | cons page_lines pages ih =>
    rw [List.length_cons] at hhi
    by_cases hnext : k + 2 ≤ n
    · obtain ⟨p, hp, hn⟩ := ih hnext (by omega)
      exact ⟨p, List.mem_cons_of_mem _ hp, hn⟩
    · refine ⟨_, List.mem_cons_self, ?_⟩
      show n = k ∨ n = k + 1
      omega

theorem ids_entriesFrom (k : ℕ) (pages : List (List Text)) :
    ((entriesFrom k pages).flatMap fun p ↦ [p.content_id, p.page_id]) =
      List.range' k (2 * pages.length) := by
  induction pages generalizing k with
  | nil => rfl
  | cons page_lines pages ih =>
    rw [entriesFrom, List.flatMap_cons, ih, List.length_cons, Nat.mul_succ, List.range'_succ,
      List.range'_succ]
    rfl

theorem length_entriesFrom (k : ℕ) (pages : List (List Text)) :
    (entriesFrom k pages).length = pages.length := by
  induction pages generalizing k with
  | nil => rfl
  | cons page_lines pages ih => rw [entriesFrom, List.length_cons, List.length_cons, ih]

theorem streams_entriesFrom (k : ℕ) (pages : List (List Text)) :
    (entriesFrom k pages).map PageEntry.stream = pages.map stream := by
  induction pages generalizing k with
  | nil => rfl
  | cons page_lines pages ih => rw [entriesFrom, List.map_cons, List.map_cons, ih]

theorem length_bodies (pages : List (List Text)) : (bodies pages).length = 3 + 2 * pages.length := by
  rw [bodies, List.length_append, length_bodiesOf, length_entriesFrom]
  rfl

/-- Behind the catalog, the list of pages and the font. -/
theorem getElem?_bodies (pages : List (List Text)) (i : ℕ) :
    (bodies pages)[i + 3]? = (bodiesOf (entriesFrom 4 pages))[i]? := by
  rw [bodies, List.cons_append, List.cons_append, List.cons_append, List.getElem?_cons_succ,
    List.getElem?_cons_succ, List.getElem?_cons_succ, List.nil_append]

/-- The objects of the file form a page tree. -/
theorem pageTree_bodies (pages : List (List Text)) : PageTree (bodies pages) (entriesFrom 4 pages) where
  root := rfl
  kids := by
    have hkids : (bodies pages)[1]? =
        some (pages_obj ((entriesFrom 4 pages).map PageEntry.page_id)) := rfl
    rw [hkids, pages_obj, kids, List.length_map, List.map_map]
    rfl
  page := by
    intro p hp
    obtain ⟨i, -, -, hpage, -, hbody⟩ := mem_entriesFrom hp
    have hindex : p.page_id - 1 = 2 * i + 1 + 3 := by omega
    refine ⟨"/MediaBox [0 0 612 792] /Resources << /Font << /F1 3 0 R >> >>".toList, ?_⟩
    rw [hindex, getElem?_bodies, hbody]
    rfl
  content := by
    intro p hp
    obtain ⟨i, -, hcontent, -, hbody, -⟩ := mem_entriesFrom hp
    have hindex : p.content_id - 1 = 2 * i + 3 := by omega
    rw [hindex, getElem?_bodies, hbody]
    rfl
  distinct := by
    rw [ids_entriesFrom]
    exact List.nodup_range'
  covers := by
    intro k hlo hhi
    rw [length_bodies] at hhi
    exact exists_entry (by omega) (by omega)

section

attribute [local instance] asciiTables

end

end PdfReport
