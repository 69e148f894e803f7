import Sentrik.Library.UrlText

/-!
# Event streams

Server-sent events, as a browser reads them: a stream is lines, a line is a field of the event that is
being collected, and an empty line dispatches it. A line ends with a line feed, a carriage return, or both.

The reader takes one character at a time. What is written event by event is read back (`read_writeAll`),
where neither a type nor a datum has a line break of its own.
-/

namespace EventStream

structure Event where
  type : Text
  data : Text
  deriving DecidableEq, Repr

/-! ### Reading -/

/-- A stream that is being read: the line so far, the fields of the event so far, whether the last character
was a carriage return, and the events that were dispatched. -/
structure Reader where
  line : Text := []
  type : Text := []
  data : List Text := []
  afterReturn : Bool := false
  events : List Event := []
  deriving DecidableEq, Repr

/-- Name and value of a field. One blank behind the colon does not belong to the value. -/
def field (line : Text) : Text × Text :=
  match Text.partition ':' line with
  | (name, some (' ' :: value)) => (name, value)
  | (name, some value) => (name, value)
  | (name, none) => (name, [])

/-- Dispatch what was collected, if there are data. -/
def Reader.dispatch (r : Reader) : Reader :=
  if r.data = [] then { r with type := [] }
  else
    let type := if r.type = [] then "message".toList else r.type
    { r with
      type := []
      data := []
      events := r.events ++ [⟨type, List.intercalate "\n".toList r.data⟩] }

/-- A whole line. Of the fields, `id` and `retry` are not about the event; a comment has an empty name. -/
def Reader.endLine (r : Reader) : Reader :=
  if r.line = [] then r.dispatch
  else
    let (name, value) := field r.line
    let r := { r with line := [] }
    if name = "event".toList then { r with type := value }
    else if name = "data".toList then { r with data := r.data ++ [value] }
    else r

/-- The next character. -/
def Reader.feed (r : Reader) (c : Char) : Reader :=
  if c = '\n' then
    if r.afterReturn then { r with afterReturn := false } else r.endLine
  else if c = '\r' then { r.endLine with afterReturn := true }
  else { r with line := r.line ++ [c], afterReturn := false }

/-- The events a stream dispatches. -/
def read (t : Text) : List Event := (t.foldl Reader.feed {}).events

/-! ### Writing -/

/-- A text without line breaks. -/
def OneLine (t : Text) : Prop := '\n' ∉ t ∧ '\r' ∉ t

instance (t : Text) : Decidable (OneLine t) := inferInstanceAs (Decidable (_ ∧ _))

theorem OneLine.of_cons {c : Char} {t : Text} (h : OneLine (c :: t)) :
    c ≠ '\n' ∧ c ≠ '\r' ∧ OneLine t :=
  ⟨fun hc ↦ h.1 (hc ▸ List.mem_cons_self), fun hc ↦ h.2 (hc ▸ List.mem_cons_self),
    fun hmem ↦ h.1 (List.mem_cons_of_mem c hmem), fun hmem ↦ h.2 (List.mem_cons_of_mem c hmem)⟩

/-- A line of a stream. -/
def writeField (name value : Text) : Text := name ++ (": ".toList ++ (value ++ "\n".toList))

def write (e : Event) : Text :=
  writeField "event".toList e.type ++ (writeField "data".toList e.data ++ "\n".toList)

def writeAll (events : List Event) : Text := events.flatMap write

/-- An event that can be written: it has a type, and no line breaks. -/
structure Writable (e : Event) : Prop where
  type_ne_nil : e.type ≠ []
  type : OneLine e.type
  data : OneLine e.data

/-- Characters that end no line are collected. -/
theorem foldl_feed_oneLine {t : Text} (h : OneLine t) (r : Reader) (hr : r.afterReturn = false) :
    t.foldl Reader.feed r = { r with line := r.line ++ t } := by
  induction t generalizing r with
  | nil => rw [List.foldl_nil, List.append_nil]
  | cons c t ih =>
    obtain ⟨hlf, hcr, ht⟩ := h.of_cons
    rw [List.foldl_cons, Reader.feed, if_neg hlf, if_neg hcr, ih ht _ rfl, hr, List.append_assoc,
      List.singleton_append]

theorem feed_lf {r : Reader} (hr : r.afterReturn = false) : r.feed '\n' = r.endLine := by
  rw [Reader.feed, if_pos rfl, hr, if_neg Bool.false_ne_true]

theorem field_append {name : Text} (hname : ':' ∉ name) (value : Text) :
    field (name ++ (": ".toList ++ value)) = (name, value) := by
  have hpartition : Text.partition ':' (name ++ ':' :: ' ' :: value) = (name, some (' ' :: value)) := by
    rw [Text.partition_append hname, Text.partition_cons_self, List.append_nil]
  show field (name ++ ':' :: ' ' :: value) = (name, value)
  rw [field, hpartition]
  rfl

/-- What a reader does with a line that a field was written to. -/
theorem foldl_feed_writeField {name value : Text} (hname : OneLine name) (hcolon : ':' ∉ name)
    (hne : name ≠ []) (hvalue : OneLine value) (r : Reader) (hline : r.line = [])
    (hr : r.afterReturn = false) :
    (writeField name value).foldl Reader.feed r =
      if name = "event".toList then { r with type := value }
      else if name = "data".toList then { r with data := r.data ++ [value] }
      else r := by
  have hfield : OneLine (name ++ (": ".toList ++ value)) := by
    refine ⟨fun hmem ↦ ?_, fun hmem ↦ ?_⟩
    · rcases List.mem_append.1 hmem with hmem | hmem
      · exact hname.1 hmem
      · rcases List.mem_append.1 hmem with hmem | hmem
        · exact absurd hmem (by decide)
        · exact hvalue.1 hmem
    · rcases List.mem_append.1 hmem with hmem | hmem
      · exact hname.2 hmem
      · rcases List.mem_append.1 hmem with hmem | hmem
        · exact absurd hmem (by decide)
        · exact hvalue.2 hmem
  have htext : writeField name value = name ++ (": ".toList ++ value) ++ "\n".toList := by
    rw [writeField, List.append_assoc, List.append_assoc]
  have hline' : name ++ (": ".toList ++ value) ≠ [] := fun h ↦ hne (List.append_eq_nil_iff.1 h).1
  have hr' : ({ r with line := name ++ (": ".toList ++ value) } : Reader).afterReturn = false := hr
  rw [htext, List.foldl_append, foldl_feed_oneLine hfield r hr, hline, List.nil_append]
  show Reader.feed { r with line := name ++ (": ".toList ++ value) } '\n' = _
  rw [feed_lf hr', Reader.endLine, if_neg hline', field_append hcolon]
  dsimp only
  rw [← hline]

/-- An event that was written is dispatched. -/
theorem foldl_feed_write {e : Event} (h : Writable e) (events : List Event) :
    (write e).foldl Reader.feed { events } = { events := events ++ [e] } := by
  rw [write, List.foldl_append, List.foldl_append,
    foldl_feed_writeField (by decide) (by decide) (by decide) h.type _ rfl rfl, if_pos rfl,
    foldl_feed_writeField (by decide) (by decide) (by decide) h.data _ rfl rfl, if_neg (by decide),
    if_pos rfl]
  show Reader.feed { type := e.type, data := [e.data], events } '\n' = _
  rw [feed_lf rfl, Reader.endLine, if_pos rfl, Reader.dispatch, if_neg (List.cons_ne_nil _ _)]
  dsimp only
  rw [if_neg h.type_ne_nil, List.intercalate_singleton]

/-- **What is written is read back**, whatever has been read before. -/
theorem foldl_feed_writeAll {l : List Event} (h : ∀ e ∈ l, Writable e) (events : List Event) :
    (writeAll l).foldl Reader.feed { events } = { events := events ++ l } := by
  induction l generalizing events with
  | nil => rw [List.append_nil]; rfl
  | cons e l ih =>
    obtain ⟨he, hl⟩ := List.forall_mem_cons.1 h
    rw [writeAll, List.flatMap_cons, List.foldl_append, foldl_feed_write he, ← writeAll, ih hl,
      List.append_assoc, List.singleton_append]

theorem read_writeAll {l : List Event} (h : ∀ e ∈ l, Writable e) : read (writeAll l) = l := by
  have hread := foldl_feed_writeAll h []
  rw [read]
  show ((writeAll l).foldl Reader.feed { events := [] }).events = l
  rw [hread]
  rfl

end EventStream
