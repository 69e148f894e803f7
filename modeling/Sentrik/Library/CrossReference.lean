import Sentrik.Library.Bytes

/-!
# Files with a cross-reference table

A PDF file is a header, numbered objects, a table with the position of every object, and a trailer with
the number of entries and the position of the table. `CrossReferenced` is what a reader of the file
relies on: it starts at the trailer, finds the table where `startxref` says, reads in the row of an
object where the object is, and finds there the line that opens it. A file that is written object by
object, with the positions taken while writing, is cross-referenced as long as the positions fit the ten
digits of a row.
-/

namespace CrossReference

/-- The line that opens an object. -/
def objectLine (k : ℕ) : Bytes := Text.utf8 (Text.decimal k ++ " 0 obj".toList)

/-- An object: the line that opens it, its body, and the line that closes it. -/
def object (k : ℕ) (body : Bytes) : Bytes :=
  objectLine k ++ 10 :: body ++ Text.utf8 "\nendobj\n".toList

/-- The objects with these bodies, numbered from one. -/
def objects (bodies : List Bytes) : List Bytes := bodies.mapIdx fun i body ↦ object (i + 1) body

/-- The row of an object in the table. -/
def entry (pos : ℕ) : Bytes := Text.utf8 (Text.padded 10 pos ++ " 00000 n \n".toList)

/-- The row of an object that is not in the file. -/
def freeEntry : Bytes := Text.utf8 "0000000000 65535 f \n".toList

/-- The head of a table with that many rows. -/
def tableHead (n : ℕ) : Bytes := Text.utf8 ("xref\n0 ".toList ++ Text.decimal n ++ "\n".toList)

/-- The trailer. -/
def trailer (n xref : ℕ) : Bytes :=
  Text.utf8 ("trailer\n<< /Size ".toList ++ Text.decimal n ++
    " /Root 1 0 R >>\nstartxref\n".toList ++ Text.decimal xref ++ "\n%%EOF\n".toList)

/-- The position that a row gives: ten digits, and what marks the row of an object in the file. -/
def readEntry (row : Bytes) : Option ℕ :=
  if row.drop 10 = Text.utf8 " 00000 n \n".toList then Bytes.decimal? (row.take 10) else none

/-- The file consists of the header, the objects with these bodies, numbered from one without a gap, the
table, and the trailer, and the positions in it are those of what they refer to. -/
structure CrossReferenced (file header : Bytes) (bodies : List Bytes) (xref : ℕ) : Prop where
  /-- Before the table there are the header and the objects, and nothing else. -/
  objects : file.take xref = header ++ (objects bodies).flatten
  /-- The table begins where the trailer says, with the row of object zero. -/
  table : Bytes.LineAt file xref (Text.utf8 "xref".toList) ∧
    Bytes.At file xref (tableHead (bodies.length + 1) ++ freeEntry)
  /-- The row of every object, twenty bytes wide, gives the position of the line that opens it. -/
  entries : ∀ k body, bodies[k]? = some body → ∃ row pos,
    Bytes.At file (xref + (tableHead (bodies.length + 1)).length + 20 * (k + 1)) row ∧
      row.length = 20 ∧ readEntry row = some pos ∧
      Bytes.LineAt file pos (objectLine (k + 1)) ∧ Bytes.At file pos (object (k + 1) body)
  /-- After the last row there is the trailer, and nothing else. -/
  trailer : file.drop (xref + (tableHead (bodies.length + 1)).length + 20 * (bodies.length + 1)) =
    trailer (bodies.length + 1) xref

/-! ### Lines and rows -/

theorem length_entry {pos : ℕ} (h : pos < 10 ^ 10) : (entry pos).length = 20 := by
  rw [entry, Text.utf8_append, List.length_append, Bytes.length_utf8_padded (by decide) h]
  rfl

/-- The position in a row is read back. -/
theorem readEntry_entry {pos : ℕ} (h : pos < 10 ^ 10) : readEntry (entry pos) = some pos := by
  have hten : (Text.padded 10 pos).utf8.length = 10 := Bytes.length_utf8_padded (by decide) h
  have hmark : (entry pos).drop 10 = Text.utf8 " 00000 n \n".toList := by
    rw [entry, Text.utf8_append]
    exact List.drop_left' hten
  have hdigits : (entry pos).take 10 = (Text.padded 10 pos).utf8 := by
    rw [entry, Text.utf8_append]
    exact List.take_left' hten
  rw [readEntry, if_pos hmark, hdigits, Bytes.decimal?_padded]

/-- No line feed in the line that opens an object. -/
theorem lf_notMem_objectLine (k : ℕ) : 10 ∉ objectLine k := by
  have hdigits : ∀ c ∈ Text.decimal k, c.isDigit = true := fun c hc ↦ Text.isDigit_of_mem_decimal hc
  rw [objectLine, Text.utf8_append, Text.utf8_of_ascii fun c hc ↦ Text.ascii_of_isDigit (hdigits c hc)]
  intro hmem
  rcases List.mem_append.1 hmem with hmem | hmem
  · obtain ⟨c, hc, hten⟩ := List.mem_map.1 hmem
    have hdigit := hdigits c hc
    simp only [Char.isDigit, ge_iff_le, Bool.and_eq_true, decide_eq_true_eq] at hdigit
    have hlo : 48 ≤ c.toNat := UInt32.le_iff_toNat_le.1 hdigit.1
    have hhi : c.toNat ≤ 57 := UInt32.le_iff_toNat_le.1 hdigit.2
    have hnat : (UInt8.ofNat c.toNat).toNat = 10 := by rw [hten]; rfl
    rw [UInt8.toNat_ofNat'] at hnat
    omega
  · exact absurd hmem (by decide)

/-- An object ends with a line feed. -/
theorem getLast?_object (k : ℕ) (body : Bytes) : (object k body).getLast? = some 10 := by
  rw [object, List.getLast?_append]
  rfl

/-- After the header and some of the objects a line begins. -/
theorem getLast?_objects {header : Bytes} (hheader : header.getLast? = some 10) {parts : List Bytes}
    (h : ∀ part ∈ parts, part.getLast? = some 10) :
    (header ++ parts.flatten).getLast? = some 10 := by
  induction parts generalizing header with
  | nil => rwa [List.flatten_nil, List.append_nil]
  | cons part parts ih =>
    have hpart : (header ++ part).getLast? = some 10 := by
      rw [List.getLast?_append, h part List.mem_cons_self]
      rfl
    rw [List.flatten_cons, ← List.append_assoc]
    exact ih hpart fun p hp ↦ h p (List.mem_cons_of_mem part hp)

/-! ### Numbering -/

/-- The items, numbered from `s`. -/
def numbered {α : Type*} : ℕ → List α → List (ℕ × α)
  | _, [] => []
  | s, a :: l => (s, a) :: numbered (s + 1) l

section

variable {α : Type*}

@[simp] theorem map_fst_numbered (s : ℕ) (l : List α) :
    (numbered s l).map Prod.fst = List.range' s l.length := by
  induction l generalizing s with
  | nil => rfl
  | cons a l ih => rw [numbered, List.map_cons, ih, List.length_cons, List.range'_succ]

theorem numbered_append (s : ℕ) (l m : List α) :
    numbered s (l ++ m) = numbered s l ++ numbered (s + l.length) m := by
  induction l generalizing s with
  | nil => rfl
  | cons a l ih =>
    rw [List.cons_append, numbered, numbered, ih, List.length_cons, List.cons_append]
    simp only [Nat.add_assoc, Nat.add_comm 1]

/-- The item with a number. -/
theorem lookup_numbered (s k : ℕ) (l : List α) : (numbered s l).lookup (s + k) = l[k]? := by
  induction l generalizing s k with
  | nil => rfl
  | cons a l ih =>
    cases k with
    | zero => rw [numbered, Nat.add_zero, List.lookup_cons_self, List.getElem?_cons_zero]
    | succ k =>
      have hne : (s + (k + 1) == s) = false := beq_eq_false_iff_ne.2 (by omega)
      have hnext : s + (k + 1) = s + 1 + k := by omega
      rw [numbered, List.lookup_cons, hne, List.getElem?_cons_succ, hnext]
      exact ih (s + 1) k

end

/-! ### Writing the file -/

/-- Where an object is written. -/
def offset (header : Bytes) (bodies : List Bytes) (k : ℕ) : ℕ :=
  header.length + (((objects bodies).take k).map List.length).sum

/-- The rows of the table. -/
def rows (header : Bytes) (bodies : List Bytes) : List Bytes :=
  freeEntry :: (List.range bodies.length).map fun k ↦ entry (offset header bodies k)

/-- The header, the objects, the table with the positions they were written at, and the trailer. -/
def write (header : Bytes) (bodies : List Bytes) : Bytes :=
  header ++ (objects bodies).flatten ++ tableHead (bodies.length + 1) ++
    (rows header bodies).flatten ++
    trailer (bodies.length + 1) (header ++ (objects bodies).flatten).length

variable {header : Bytes} {bodies : List Bytes}

theorem getElem?_objects (k : ℕ) :
    (objects bodies)[k]? = bodies[k]?.map fun body ↦ object (k + 1) body :=
  List.getElem?_mapIdx

/-- An object is not written behind the table. -/
theorem offset_le (header : Bytes) (bodies : List Bytes) (k : ℕ) :
    offset header bodies k ≤ (header ++ (objects bodies).flatten).length := by
  have hsplit : (objects bodies).flatten =
      ((objects bodies).take k).flatten ++ ((objects bodies).drop k).flatten := by
    rw [← List.flatten_append, List.take_append_drop]
  rw [offset, List.length_append, hsplit, List.length_append, List.length_flatten]
  omega

/-- Before the position of an object there are the header and the objects before it. -/
theorem length_before (header : Bytes) (bodies : List Bytes) (k : ℕ) :
    (header ++ ((objects bodies).take k).flatten).length = offset header bodies k := by
  rw [offset, List.length_append, List.length_flatten]

theorem objects_split {k : ℕ} {body : Bytes} (h : bodies[k]? = some body) :
    (objects bodies).flatten = ((objects bodies).take k).flatten ++
      (object (k + 1) body ++ ((objects bodies).drop (k + 1)).flatten) := by
  have hobject : (objects bodies)[k]? = some (object (k + 1) body) := by
    rw [getElem?_objects, h]
    rfl
  obtain ⟨hk, hget⟩ := List.getElem?_eq_some_iff.1 hobject
  conv_lhs => rw [← List.take_append_drop k (objects bodies), List.drop_eq_getElem_cons hk, hget]
  rw [List.flatten_append, List.flatten_cons]

theorem length_rows (header : Bytes) (bodies : List Bytes) :
    (rows header bodies).length = bodies.length + 1 := by
  rw [rows, List.length_cons, List.length_map, List.length_range]

/-- Every row is twenty bytes wide. -/
theorem length_of_mem_rows (hsize : (header ++ (objects bodies).flatten).length < 10 ^ 10)
    {row : Bytes} (h : row ∈ rows header bodies) : row.length = 20 := by
  rcases List.mem_cons.1 h with rfl | h
  · rfl
  · obtain ⟨k, -, rfl⟩ := List.mem_map.1 h
    exact length_entry ((offset_le header bodies k).trans_lt hsize)

theorem length_flatten_rows (hsize : (header ++ (objects bodies).flatten).length < 10 ^ 10) :
    (rows header bodies).flatten.length = 20 * (bodies.length + 1) := by
  have hconst : (rows header bodies).map List.length = List.replicate (bodies.length + 1) 20 := by
    refine List.eq_replicate_iff.2 ⟨?_, ?_⟩
    · rw [List.length_map, length_rows]
    · intro w hw
      obtain ⟨row, hrow, rfl⟩ := List.mem_map.1 hw
      exact length_of_mem_rows hsize hrow
  rw [List.length_flatten, hconst, List.sum_replicate_nat, Nat.mul_comm]

/-- Where the table of a written file begins. -/
def xrefOf (header : Bytes) (bodies : List Bytes) : ℕ := (header ++ (objects bodies).flatten).length

/-- What a written file holds after an object. -/
def rest (header : Bytes) (bodies : List Bytes) (k : ℕ) : Bytes :=
  ((objects bodies).drop (k + 1)).flatten ++ (tableHead (bodies.length + 1) ++
    ((rows header bodies).flatten ++ trailer (bodies.length + 1) (xrefOf header bodies)))

/-- A written file around one of its objects. -/
theorem write_around {k : ℕ} {body : Bytes} (h : bodies[k]? = some body) :
    write header bodies = (header ++ ((objects bodies).take k).flatten) ++ object (k + 1) body ++
      rest header bodies k := by
  rw [write, objects_split h, rest, xrefOf, objects_split h]
  simp only [List.append_assoc]

theorem getLast?_of_mem_objects {part : Bytes} (h : part ∈ objects bodies) :
    part.getLast? = some 10 := by
  obtain ⟨k, hk, rfl⟩ := List.mem_mapIdx.1 h
  exact getLast?_object _ _

theorem write_table (hheader : header.getLast? = some 10) :
    Bytes.LineAt (write header bodies) (xrefOf header bodies) (Text.utf8 "xref".toList) ∧
      Bytes.At (write header bodies) (xrefOf header bodies)
        (tableHead (bodies.length + 1) ++ freeEntry) := by
  have hhead : tableHead (bodies.length + 1) = Text.utf8 "xref".toList ++ 10 ::
      (Text.utf8 "0 ".toList ++ Text.utf8 (Text.decimal (bodies.length + 1)) ++
        Text.utf8 "\n".toList) := by
    rw [tableHead, Text.utf8_append, Text.utf8_append]
    rfl
  constructor
  · refine ⟨by decide, header ++ (objects bodies).flatten,
      Text.utf8 "0 ".toList ++ Text.utf8 (Text.decimal (bodies.length + 1)) ++
        Text.utf8 "\n".toList ++ (rows header bodies).flatten ++
          trailer (bodies.length + 1) (xrefOf header bodies), ?_, rfl, .inr ?_⟩
    · rw [write, hhead, xrefOf]
      simp only [List.append_assoc, List.cons_append]
    · exact getLast?_objects hheader fun part hpart ↦ getLast?_of_mem_objects hpart
  · refine ⟨header ++ (objects bodies).flatten, ((rows header bodies).drop 1).flatten ++
      trailer (bodies.length + 1) (xrefOf header bodies), ?_, rfl⟩
    rw [write, rows, xrefOf]
    simp only [List.append_assoc, List.drop_succ_cons, List.drop_zero, List.flatten_cons]

/-- The row of an object is the one after the free row and those of the objects before it. -/
theorem write_entry (hsize : xrefOf header bodies < 10 ^ 10) {k : ℕ} (hk : k < bodies.length) :
    Bytes.At (write header bodies)
      (xrefOf header bodies + (tableHead (bodies.length + 1)).length + 20 * (k + 1))
      (entry (offset header bodies k)) := by
  have hrow : (rows header bodies)[k + 1]? = some (entry (offset header bodies k)) := by
    rw [rows, List.getElem?_cons_succ, List.getElem?_map, List.getElem?_range hk]
    rfl
  have hin := Bytes.at_table (fun part hpart ↦ length_of_mem_rows hsize hpart) hrow
  have htable := Bytes.at_intro (header ++ (objects bodies).flatten ++ tableHead (bodies.length + 1))
    (rows header bodies).flatten (trailer (bodies.length + 1) (xrefOf header bodies))
  have hbase : (header ++ (objects bodies).flatten ++ tableHead (bodies.length + 1)).length =
      xrefOf header bodies + (tableHead (bodies.length + 1)).length := List.length_append
  rw [hbase] at htable
  exact htable.inner hin

/-- Behind the rows there is the trailer. -/
theorem write_trailer (hsize : xrefOf header bodies < 10 ^ 10) :
    (write header bodies).drop
        (xrefOf header bodies + (tableHead (bodies.length + 1)).length + 20 * (bodies.length + 1)) =
      trailer (bodies.length + 1) (xrefOf header bodies) := by
  have hlength : (header ++ (objects bodies).flatten ++ tableHead (bodies.length + 1) ++
      (rows header bodies).flatten).length =
        xrefOf header bodies + (tableHead (bodies.length + 1)).length + 20 * (bodies.length + 1) := by
    rw [List.length_append, List.length_append, length_flatten_rows hsize, xrefOf]
  rw [← hlength]
  exact List.drop_left

/-- A written file is cross-referenced, when the header ends a line and the objects fit the rows. -/
theorem crossReferenced_write (hheader : header.getLast? = some 10)
    (hsize : xrefOf header bodies < 10 ^ 10) :
    CrossReferenced (write header bodies) header bodies (xrefOf header bodies) where
  objects := by
    rw [write, List.append_assoc _ (tableHead _), List.append_assoc _ (tableHead _ ++ _)]
    exact List.take_left
  table := write_table hheader
  entries := by
    intro k body hbody
    have hk : k < bodies.length := (List.getElem?_eq_some_iff.1 hbody).1
    have hpos : offset header bodies k < 10 ^ 10 := (offset_le header bodies k).trans_lt hsize
    have hbefore := length_before header bodies k
    -- the object stands where its row says, and begins with its line
    refine ⟨entry (offset header bodies k), offset header bodies k, write_entry hsize hk,
      length_entry hpos, readEntry_entry hpos, ⟨lf_notMem_objectLine _, _,
        body ++ Text.utf8 "\nendobj\n".toList ++ rest header bodies k, ?_, hbefore, .inr ?_⟩,
      _, rest header bodies k, write_around hbody, hbefore⟩
    · rw [write_around hbody, object]
      simp only [List.append_assoc, List.cons_append]
    · exact getLast?_objects hheader fun part hpart ↦
        getLast?_of_mem_objects (List.mem_of_mem_take hpart)
  trailer := write_trailer hsize

end CrossReference
