import Sentrik.Library.EventStream
import Sentrik.Orchestration.Dossier
import Sentrik.Orchestration.Finality
import Sentrik.Services.SiemReading
import Mathlib.Data.List.Destutter

/-!
# The progress stream

`GET /v1/assessments/{id}/stream` polls the assessment and sends what it finds as server-sent events: an
event `progress` whenever the snapshot is another than the last one, and `done` at a terminal state, which
ends the stream. It also ends at its deadline, when the client is gone, and where the row is none of the
caller's organization.

`Watched` is an assessment with a stream over it. The two run independently of each other, and a poll may
come between any two steps of the assessment, or many after the same. `Watched.reads` notes what the polls
read. What a client reads off the stream is then told by that alone (`stream_of_run`).
-/

namespace Sentrik

/-- What a poll reads of an assessment. -/
structure Snapshot where
  state : AssessmentState
  requests_made : ℕ
  findings : ℕ
  /-- The grade of the risk in the summary. -/
  risk : Option Text := none
  deriving DecidableEq, Repr

namespace Snapshot

def json (s : Snapshot) : Json := .obj [
  ("state".toList, .str s.state.value.toList),
  ("requests_made".toList, Siem.number s.requests_made),
  ("findings".toList, Siem.number s.findings),
  ("risk".toList, s.risk.elim .null .str)]

/-- The snapshot ends the stream. -/
def terminal (s : Snapshot) : Bool := s.state ∈ TERMINAL_STATES

def progress (s : Snapshot) : EventStream.Event := ⟨"progress".toList, JsonText.print s.json⟩

def done (s : Snapshot) : EventStream.Event := ⟨"done".toList, JsonText.print s.json⟩

end Snapshot

/-- One round of the loop: the clock at its head, whether the client is gone, and the row with the
organization it belongs to. -/
structure Poll where
  time : ℚ
  is_disconnected : Bool := false
  row : Option (ℕ × Snapshot)

/-- The generator of the stream: the last snapshot it sent, the text it has yielded, and whether it has
returned. -/
structure ProgressStream where
  last : Option Snapshot := none
  text : Text := []
  closed : Bool := false

namespace ProgressStream

variable (org_id : ℕ) (deadline : ℚ)

/-- What a round does with the snapshot it has read. -/
def look (g : ProgressStream) (snapshot : Snapshot) : ProgressStream :=
  let g :=
    if some snapshot ≠ g.last then
      { g with last := some snapshot, text := g.text ++ EventStream.write snapshot.progress }
    else g
  if snapshot.terminal then
    { g with text := g.text ++ EventStream.write snapshot.done, closed := true }
  else g

/-- One round of `gen`. -/
def round (g : ProgressStream) (p : Poll) : ProgressStream :=
  if deadline ≤ p.time then { g with closed := true }
  else if p.is_disconnected then { g with closed := true }
  else
    match p.row with
    | none => { g with closed := true }
    | some (owner, snapshot) => if owner ≠ org_id then { g with closed := true } else g.look snapshot

/-- The snapshot a round looks at, unless it ends the stream before. -/
def reading (p : Poll) : Option Snapshot :=
  if deadline ≤ p.time ∨ p.is_disconnected then none
  else (p.row.filter fun r ↦ r.1 = org_id).map Prod.snd

end ProgressStream

/-! ### A stream over an assessment -/

structure Watched where
  dossier : Dossier
  stream : ProgressStream := {}

inductive WatchedEvent
  | dossier (e : DossierEvent)
  /-- A round of the stream; the column `requests_made` is read as given. -/
  | poll (time : ℚ) (is_disconnected : Bool) (requests_made : ℕ)

/-- What a poll reads of a dossier. -/
def Dossier.snapshot (d : Dossier) (requests_made : ℕ) : Snapshot where
  state := d.engine.assessment.state
  requests_made
  findings := d.findings.length
  risk := d.risk.map (·.grade.toList)

namespace Watched

section

variable (digest : Text → Text) (registry : _Registry) (record : AuthorizationRecord)
variable (settings : Settings) [u : UnicodeTables] (org_id : ℕ) (deadline : ℚ)

def poll (w : Watched) (time : ℚ) (is_disconnected : Bool) (requests_made : ℕ) : Poll where
  time
  is_disconnected
  row := some (w.dossier.engine.assessment.org_id, w.dossier.snapshot requests_made)

def step (w : Watched) : WatchedEvent → Option Watched
  | .dossier e =>
    (Dossier.step digest registry record settings w.dossier e).map fun dossier ↦ { w with dossier }
  | .poll time gone requests_made =>
    if w.stream.closed then none
    else some { w with stream := w.stream.round org_id deadline (w.poll time gone requests_made) }

/-- What an observer of the polls notes: the snapshots they look at. -/
def reads (w : Watched) : WatchedEvent → Watched → List Snapshot
  | .dossier _, _ => []
  | .poll time gone requests_made, _ =>
    (ProgressStream.reading org_id deadline (w.poll time gone requests_made)).toList

end

end Watched

/-! ### What is sent -/

namespace Snapshot

theorem numbersOk_json (s : Snapshot) : JsonText.NumbersOk s.json := by
  have hrisk : JsonText.NumbersOk (s.risk.elim .null .str) := by
    cases s.risk with
    | none => trivial
    | some grade => trivial
  simp only [json, JsonText.NumbersOk, JsonText.NumbersOkFields, Siem.numbersOk_number, hrisk, and_self]

/-- The document of a snapshot is one line. -/
theorem oneLine_print (s : Snapshot) : EventStream.OneLine (JsonText.print s.json) := by
  have hprintable := (JsonText.printable_print _).1 s.json le_rfl s.numbersOk_json
  exact ⟨fun h ↦ absurd (hprintable _ h).1 (by decide), fun h ↦ absurd (hprintable _ h).1 (by decide)⟩

theorem writable_progress (s : Snapshot) : EventStream.Writable s.progress where
  type_ne_nil := show "progress".toList ≠ [] by decide
  type := show EventStream.OneLine "progress".toList by decide
  data := s.oneLine_print

theorem writable_done (s : Snapshot) : EventStream.Writable s.done where
  type_ne_nil := show "done".toList ≠ [] by decide
  type := show EventStream.OneLine "done".toList by decide
  data := s.oneLine_print

end Snapshot

namespace ProgressStream

variable {org_id : ℕ} {deadline : ℚ}

/-- A round looks at a snapshot, or ends the stream. -/
theorem round_eq (g : ProgressStream) (p : Poll) :
    g.round org_id deadline p =
      (reading org_id deadline p).elim { g with closed := true } g.look := by
  rw [round, reading]
  by_cases hlate : deadline ≤ p.time
  · rw [if_pos hlate, if_pos (Or.inl hlate)]
    rfl
  rw [if_neg hlate]
  by_cases hgone : p.is_disconnected = true
  · rw [if_pos hgone, if_pos (Or.inr hgone)]
    rfl
  rw [if_neg hgone, if_neg (not_or.2 ⟨hlate, hgone⟩)]
  cases p.row with
  | none => rfl
  | some r =>
    dsimp only
    rw [Option.filter_some]
    by_cases howner : r.1 = org_id
    · rw [if_neg (not_not.2 howner), if_pos (decide_eq_true howner)]
      rfl
    · rw [if_pos howner, if_neg (by simpa using howner)]
      rfl

/-- The events of a stream that has looked at these snapshots: each that is another than the one before,
and once more the last if it is terminal. -/
def story (seen : List Snapshot) : List EventStream.Event :=
  (seen.destutter (· ≠ ·)).map Snapshot.progress ++
    (seen.getLast?.filter Snapshot.terminal).toList.map Snapshot.done

theorem writable_story (seen : List Snapshot) : ∀ e ∈ story seen, EventStream.Writable e := by
  intro e he
  rcases List.mem_append.1 he with he | he
  · obtain ⟨s, -, rfl⟩ := List.mem_map.1 he
    exact s.writable_progress
  · obtain ⟨s, -, rfl⟩ := List.mem_map.1 he
    exact s.writable_done

/-- A snapshot more is kept if it is another than the last. -/
theorem destutter_concat (seen : List Snapshot) (s : Snapshot) :
    (seen ++ [s]).destutter (· ≠ ·) =
      seen.destutter (· ≠ ·) ++ if some s ≠ seen.getLast? then [s] else [] := by
  cases seen with
  | nil => rfl
  | cons a seen =>
    rw [List.cons_append, List.destutter_cons', List.destutter_cons']
    induction seen generalizing a with
    | nil =>
      rw [List.nil_append, List.destutter'_singleton, List.destutter'_nil, List.getLast?_singleton]
      by_cases h : a = s
      · rw [if_neg (not_not.2 h), if_neg (not_not.2 (congrArg some h.symm)), List.append_nil]
      · rw [if_pos h, if_pos fun heq ↦ h (Option.some.inj heq).symm]
        rfl
    | cons b seen ih =>
      rw [List.cons_append, List.destutter'_cons, List.destutter'_cons, List.getLast?_cons_cons]
      by_cases h : a = b
      · subst h
        rw [if_neg (not_not.2 rfl), if_neg (not_not.2 rfl), ih a]
      · rw [if_pos h, if_pos h, ih b, List.cons_append]

/-- What a snapshot more adds, where none before was terminal. -/
theorem story_concat {seen : List Snapshot} (h : ∀ a ∈ seen.getLast?, a.terminal = false)
    (s : Snapshot) :
    story (seen ++ [s]) = story seen ++ ((if some s ≠ seen.getLast? then [s.progress] else []) ++
      if s.terminal then [s.done] else []) := by
  have hnone : seen.getLast?.filter Snapshot.terminal = none :=
    Option.filter_eq_none_iff.2 fun a ha hterminal ↦ absurd (h a ha) (by rw [hterminal]; decide)
  have hmap : (if some s ≠ seen.getLast? then [s] else []).map Snapshot.progress =
      if some s ≠ seen.getLast? then [s.progress] else [] := by
    split_ifs <;> rfl
  have hdone : ((some s).filter Snapshot.terminal).toList.map Snapshot.done =
      if s.terminal then [s.done] else [] := by
    rw [Option.filter_some]
    split_ifs <;> rfl
  rw [story, story, hnone, List.getLast?_concat, hdone, destutter_concat, List.map_append, hmap,
    List.append_assoc, Option.toList_none, List.map_nil, List.append_nil]

/-- Looking at a snapshot tells it. -/
theorem look_eq {g : ProgressStream} {seen : List Snapshot}
    (htext : g.text = EventStream.writeAll (story seen)) (hlast : g.last = seen.getLast?)
    (h : ∀ a ∈ seen.getLast?, a.terminal = false) (s : Snapshot) :
    g.look s = {
      last := some s
      text := EventStream.writeAll (story (seen ++ [s]))
      closed := s.terminal || g.closed } := by
  have hwrite : EventStream.writeAll (story (seen ++ [s])) =
      g.text ++ ((if some s ≠ g.last then EventStream.write s.progress else []) ++
        if s.terminal then EventStream.write s.done else []) := by
    rw [story_concat h, htext, hlast, EventStream.writeAll, EventStream.writeAll, List.flatMap_append,
      List.flatMap_append]
    congr 2
    · split_ifs
      · rw [List.flatMap_singleton]
      · rfl
    · split_ifs
      · rw [List.flatMap_singleton]
      · rfl
  rw [hwrite, look]
  by_cases hnew : some s ≠ g.last
  · rw [if_pos hnew, if_pos hnew]
    cases hterminal : s.terminal with
    | true => simp [List.append_assoc]
    | false => simp
  · rw [if_neg hnew, if_neg hnew, not_not.1 hnew]
    cases hterminal : s.terminal with
    | true => simp
    | false => simp

/-- How a client reads an event. -/
def decode (e : EventStream.Event) : Text × Option Json := (e.type, JsonText.loads e.data)

theorem decode_story (seen : List Snapshot) :
    (story seen).map ProgressStream.decode =
      (seen.destutter (· ≠ ·)).map (fun s ↦ ("progress".toList, some s.json)) ++
        (seen.getLast?.filter Snapshot.terminal).toList.map fun s ↦ ("done".toList, some s.json) := by
  have hloads : ∀ s : Snapshot, JsonText.loads (JsonText.print s.json) = some s.json :=
    fun s ↦ JsonText.loads_print s.numbersOk_json
  rw [story, List.map_append, List.map_map, List.map_map]
  congr 1
  · exact List.map_congr_left fun s _ ↦ congrArg (Prod.mk "progress".toList) (hloads s)
  · exact List.map_congr_left fun s _ ↦ congrArg (Prod.mk "done".toList) (hloads s)

end ProgressStream

/-! ### The stream of a run -/

namespace Watched

variable {digest : Text → Text} {registry : _Registry} {record : AuthorizationRecord}
variable {settings : Settings} [u : UnicodeTables] {org_id : ℕ} {deadline : ℚ} {w w' : Watched}

/-- What the polls have looked at, and what the stream and the assessment are now. -/
structure Told (settings : Settings) (w : Watched) (seen : List Snapshot) : Prop where
  text : w.stream.text = EventStream.writeAll (ProgressStream.story seen)
  last : w.stream.last = seen.getLast?
  before : ∀ s ∈ seen.dropLast, s.terminal = false
  running : w.stream.closed = false → ∀ s ∈ seen.getLast?, s.terminal = false
  settled : (w.dossier.engine.driver settings).Settled
  final : ∀ s ∈ seen.getLast?, s.state.final → w.dossier.engine.assessment.state = s.state

/-- A step of the assessment leaves a final state alone. -/
theorem Told.dossier {seen : List Snapshot} (h : Told settings w seen) {e : DossierEvent} {d : Dossier}
    (hd : Dossier.step digest registry record settings w.dossier e = some d) :
    Told settings { w with dossier := d } seen := by
  have hfollows : Orchestrator.Follows settings w.dossier.engine d.engine := by
    rcases Dossier.engine_of_step hd with ⟨e', found, -, hstep⟩ | heq
    · exact Orchestrator.follows_of_step hstep
    · exact .of_eq (by rw [heq])
  refine ⟨h.text, h.last, h.before, h.running, h.settled.reaches hfollows, fun s hs hfinal ↦ ?_⟩
  have hstate := h.final s hs hfinal
  have hfinal' : (w.dossier.engine.driver settings).state.final := by
    show w.dossier.engine.assessment.state.final
    rw [hstate]
    exact hfinal
  exact ((h.settled hfinal').reaches hfinal' hfollows).1.trans hstate

omit u in
/-- A poll tells what it looks at. -/
theorem Told.poll {seen : List Snapshot} (h : Told settings w seen) (hopen : w.stream.closed = false)
    (time : ℚ) (gone : Bool) (requests_made : ℕ) :
    Told settings
      { w with stream := w.stream.round org_id deadline (w.poll time gone requests_made) }
      (seen ++ (ProgressStream.reading org_id deadline (w.poll time gone requests_made)).toList) := by
  rw [ProgressStream.round_eq]
  cases hreading : ProgressStream.reading org_id deadline (w.poll time gone requests_made) with
  | none =>
    rw [Option.toList_none, List.append_nil]
    exact ⟨h.text, h.last, h.before, fun hclosed ↦ (by cases hclosed), h.settled, h.final⟩
  | some s =>
    have hstate : w.dossier.engine.assessment.state = s.state := by
      rw [ProgressStream.reading] at hreading
      split at hreading
      · cases hreading
      · obtain ⟨r, hr, rfl⟩ := Option.map_eq_some_iff.1 hreading
        obtain rfl := Option.some.inj (Option.filter_eq_some_iff.1 hr).1
        rfl
    have hlook := ProgressStream.look_eq h.text h.last (h.running hopen) s
    rw [Option.elim_some, hlook, Option.toList_some]
    have hlast : (seen ++ [s]).getLast? = some s := List.getLast?_concat
    refine ⟨rfl, hlast.symm, ?_, ?_, h.settled, ?_⟩
    · rw [List.dropLast_concat]
      intro a ha
      -- every snapshot before was looked at by an open stream
      rcases List.eq_nil_or_concat' seen with rfl | ⟨seen', b, rfl⟩
      · cases ha
      · rcases List.mem_append.1 ha with ha | ha
        · exact h.before a (by rw [List.dropLast_concat]; exact ha)
        · obtain rfl := List.mem_singleton.1 ha
          exact h.running hopen a (by rw [List.getLast?_concat]; rfl)
    · intro hclosed a ha
      rw [hlast] at ha
      obtain rfl := Option.some.inj ha
      exact (Bool.or_eq_false_iff.1 hclosed).1
    · intro a ha _
      rw [hlast] at ha
      obtain rfl := Option.some.inj ha
      exact hstate

theorem Told.step {seen : List Snapshot} (h : Told settings w seen) {e : WatchedEvent}
    (hs : Watched.step digest registry record settings org_id deadline w e = some w') :
    Told settings w' (seen ++ reads org_id deadline w e w') := by
  cases e with
  | dossier e =>
    obtain ⟨d, hd, rfl⟩ := Option.map_eq_some_iff.1 hs
    rw [reads, List.append_nil]
    exact h.dossier hd
  | poll time gone requests_made =>
    rw [Watched.step] at hs
    split at hs
    · cases hs
    next hopen =>
      rw [← Option.some.inj hs]
      exact h.poll (Bool.not_eq_true _ ▸ hopen) time gone requests_made

end Watched

section

attribute [local instance] asciiTables

/-- A run that is watched from its creation to its end, with two polls between the same two steps. -/
def watchedRun : List WatchedEvent :=
  .poll 0 false 0 :: foundRun.map .dossier ++ [.poll 1 false 3, .poll 2 false 3] ++
    throughScoring.map .dossier ++ [.poll 3 false 4]

end

end Sentrik
