import Sentrik.Library.UrlText

/-!
# Paths

A path is a list of segments, from the root or from the working directory. A text is taken apart at its
slashes, without empty segments and single dots; where no symbolic links are involved, resolving a path
takes a segment away for each double dot.

Plain segments (not empty, not a dot or two, without a slash) are what a path is safely extended with:
joining them only appends them (`joinpath_plain`), and resolving keeps them (`resolve_append`).
-/

/-- A path. -/
structure PosixPath where
  absolute : Bool
  parts : List Text
  deriving DecidableEq, Repr

namespace PosixPath

/-- The segments of a text. -/
def segments (t : Text) : List Text := (Text.split '/' t).filter fun s ↦ s ≠ [] ∧ s ≠ ['.']

/-- Append one argument; an absolute one replaces what was there. -/
def join (p : PosixPath) (arg : Text) : PosixPath :=
  if Text.startswith arg ['/'] then ⟨true, segments arg⟩ else ⟨p.absolute, p.parts ++ segments arg⟩

/-- `joinpath(*args)` -/
def joinpath (p : PosixPath) (args : List Text) : PosixPath := args.foldl join p

/-- `PurePosixPath(*args)` -/
def ofArgs (args : List Text) : PosixPath := joinpath ⟨false, []⟩ args

/-- The path as text. -/
def str (p : PosixPath) : Text :=
  if p.parts = [] ∧ p.absolute = false then ['.']
  else (if p.absolute then ['/'] else []) ++ List.intercalate ['/'] p.parts

/-- `p.parent` -/
def parent (p : PosixPath) : PosixPath := ⟨p.absolute, p.parts.dropLast⟩

/-- A segment of a resolved path: two dots take away the segment before. -/
def walk (at' : List Text) (segment : Text) : List Text :=
  if segment = "..".toList then at'.dropLast else at' ++ [segment]

/-- The location of a path, from a working directory, without symbolic links. -/
def resolve (cwd : List Text) (p : PosixPath) : List Text :=
  p.parts.foldl walk (if p.absolute then [] else cwd)

/-- A segment that stays where it is. -/
def Plain (s : Text) : Prop := s ≠ [] ∧ s ≠ ".".toList ∧ s ≠ "..".toList ∧ '/' ∉ s

theorem split_of_notMem {c : Char} {t : Text} (h : c ∉ t) : Text.split c t = [t] := by
  have hsplit : Text.split c (t ++ []) = [t ++ []] := Text.split_append h rfl
  rwa [List.append_nil] at hsplit

theorem segments_plain {s : Text} (h : Plain s) : segments s = [s] := by
  rw [segments, split_of_notMem h.2.2.2]
  exact List.filter_cons_of_pos (by simpa using ⟨h.1, h.2.1⟩)

theorem join_plain (p : PosixPath) {s : Text} (h : Plain s) : join p s = ⟨p.absolute, p.parts ++ [s]⟩ := by
  have hstart : ¬Text.startswith s ['/'] = true := by
    intro hslash
    obtain ⟨r, rfl⟩ := Text.startswith_iff.1 hslash
    exact h.2.2.2 List.mem_cons_self
  rw [join, if_neg hstart, segments_plain h]

/-- Joining plain segments appends them. -/
theorem joinpath_plain (p : PosixPath) {args : List Text} (h : ∀ s ∈ args, Plain s) :
    joinpath p args = ⟨p.absolute, p.parts ++ args⟩ := by
  induction args generalizing p with
  | nil => rw [joinpath, List.foldl_nil, List.append_nil]
  | cons s args ih =>
    have hrest := ih (join p s) fun t ht ↦ h t (List.mem_cons_of_mem s ht)
    rw [joinpath, List.foldl_cons, ← joinpath, hrest, join_plain p (h s List.mem_cons_self),
      List.append_assoc]
    rfl

theorem foldl_walk_plain (cwd : List Text) {args : List Text} (h : ∀ s ∈ args, Plain s) :
    args.foldl walk cwd = cwd ++ args := by
  induction args generalizing cwd with
  | nil => rw [List.foldl_nil, List.append_nil]
  | cons s args ih =>
    have hs : walk cwd s = cwd ++ [s] := if_neg (h s List.mem_cons_self).2.2.1
    rw [List.foldl_cons, ih _ fun t ht ↦ h t (List.mem_cons_of_mem s ht), hs, List.append_assoc]
    rfl

/-- A path extended with plain segments is located where they lead from its own location. -/
theorem resolve_append (cwd : List Text) (p : PosixPath) {args : List Text} (h : ∀ s ∈ args, Plain s) :
    resolve cwd ⟨p.absolute, p.parts ++ args⟩ = resolve cwd p ++ args := by
  rw [resolve, List.foldl_append, foldl_walk_plain _ h]
  rfl

end PosixPath
