import Mathlib.Data.List.Basic

/-!
# Paths of files

`path.posix.join` of a directory and a name. The name of a file stays behind the directory, whatever the directory is.
-/

namespace Lib.PosixPath

/-- One segment, behind those before it, the last one first. -/
def push (absolute : Bool) (stack : List (List Char)) (segment : List Char) : List (List Char) :=
  if segment = [] ∨ segment = ['.'] then stack
  else if segment = ['.', '.'] then
    match stack with
    | top :: rest => if top = ['.', '.'] then segment :: stack else rest
    | [] => if absolute then [] else [segment]
  else segment :: stack

def isAbsolute (path : List Char) : Bool := path.head? = some '/'

def normalizeSegments (path : List Char) : List (List Char) :=
  ((path.splitOn '/').foldl (push (isAbsolute path)) []).reverse

/-- `path.posix.normalize`. -/
def normalize (path : List Char) : List Char :=
  if path = [] then ['.']
  else
    let body := ['/'].intercalate (normalizeSegments path)
    let root := if isAbsolute path then ['/'] else []
    if body = [] then if isAbsolute path then ['/'] else if path.getLast? = some '/' then ['.', '/'] else ['.']
    else root ++ body ++ if path.getLast? = some '/' then ['/'] else []

/-- `path.posix.join` of two paths. An empty one is skipped. -/
def join (directory name : List Char) : List Char :=
  normalize (if directory = [] then name else if name = [] then directory else directory ++ '/' :: name)

/-- What stands before every file of the directory. -/
def base (directory : List Char) : List Char :=
  (if isAbsolute directory then ['/'] else []) ++ (normalizeSegments directory).flatMap (· ++ ['/'])

/-- The name of a file. -/
structure IsName (name : List Char) : Prop where
  noSlash : '/' ∉ name
  nonempty : name ≠ []
  noDot : name ≠ ['.']
  noDots : name ≠ ['.', '.']

section Join

variable {directory name : List Char}

theorem push_name (h : IsName name) (absolute : Bool) (stack : List (List Char)) :
    push absolute stack name = name :: stack := by
  unfold push
  rw [if_neg (by simp [h.nonempty, h.noDot]), if_neg h.noDots]

theorem intercalate_name (segments : List (List Char)) :
    ['/'].intercalate (segments ++ [name]) = segments.flatMap (· ++ ['/']) ++ name := by
  induction segments with
  | nil => simp
  | cons segment segments ih =>
    have hcons : ['/'].intercalate (segment :: (segments ++ [name])) =
        segment ++ ['/'] ++ ['/'].intercalate (segments ++ [name]) := by
      cases segments <;> simp [List.intercalate]
    rw [List.cons_append, hcons, ih]
    simp

theorem splitOn_name (h : IsName name) : name.splitOn '/' = [name] := by
  refine List.splitOnP_eq_singleton fun c hc => ?_
  have hne : c ≠ '/' := by
    rintro rfl
    exact h.noSlash hc
  simpa using hne

theorem isAbsolute_append (hne : directory ≠ []) : isAbsolute (directory ++ '/' :: name) = isAbsolute directory := by
  cases directory with
  | nil => exact absurd rfl hne
  | cons c directory => rfl

theorem normalizeSegments_append (hne : directory ≠ []) (h : IsName name) :
    normalizeSegments (directory ++ '/' :: name) = normalizeSegments directory ++ [name] := by
  unfold normalizeSegments
  rw [isAbsolute_append hne, List.splitOn_append_cons_self, List.foldl_append, splitOn_name h]
  simp [push_name h]

theorem normalizeSegments_name (h : IsName name) : normalizeSegments name = [name] := by
  unfold normalizeSegments
  rw [splitOn_name h]
  simp [push_name h]

theorem normalize_of_segments {path : List Char} (segments : List (List Char)) (h : IsName name) (hne : path ≠ [])
    (hsegments : normalizeSegments path = segments ++ [name]) (hlast : path.getLast? ≠ some '/') :
    normalize path = (if isAbsolute path then ['/'] else []) ++ segments.flatMap (· ++ ['/']) ++ name := by
  have hbody : segments.flatMap (· ++ ['/']) ++ name ≠ [] := by simp [h.nonempty]
  unfold normalize
  simp only [hsegments, intercalate_name]
  rw [if_neg hne, if_neg hbody, if_neg hlast]
  simp

/-- **A name stays in its directory.** -/
theorem join_name (h : IsName name) : join directory name = base directory ++ name := by
  have hlast : name.getLast? ≠ some '/' := fun hlast => h.noSlash (List.mem_of_getLast? hlast)
  unfold join
  by_cases hempty : directory = []
  · have habsolute : isAbsolute name = false := by
      unfold isAbsolute
      simpa using fun hhead => h.noSlash (List.mem_of_head? hhead)
    rw [if_pos hempty, hempty, normalize_of_segments [] h h.nonempty (normalizeSegments_name h) hlast,
      habsolute]
    rfl
  · have hlast : (directory ++ '/' :: name).getLast? ≠ some '/' := by
      rw [List.getLast?_append, List.getLast?_cons]
      cases hname : name.getLast? with
      | none => exact absurd (List.getLast?_eq_none_iff.1 hname) h.nonempty
      | some c => simpa [hname] using hlast
    rw [if_neg hempty, if_neg h.nonempty,
      normalize_of_segments _ h (by simp) (normalizeSegments_append hempty h) hlast, isAbsolute_append hempty]
    rfl

end Join

end Lib.PosixPath
