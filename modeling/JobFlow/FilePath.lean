import JobFlow.Text.Lines
import JobFlow.Text.Match
import JobFlow.Text.Quoted

/-!
Paths of files as a user gives them, and why the system may not reach them.
-/

set_option autoImplicit false

namespace JobFlow

/-- A path as it is shown: single slashes, no `.` segments, and `..` as given. -/
structure FilePath where
  /-- The slashes in front: none, one, or exactly two when exactly two were given. -/
  root : String
  segments : List String
  deriving DecidableEq, Repr, Inhabited

namespace FilePath

def ofString (s : String) : FilePath :=
  { root := match (s.toList.takeWhile (· == '/')).length with
      | 0 => ""
      | 2 => "//"
      | _ => "/"
    segments := (Text.pieces '/' s).filter fun segment => segment ≠ "" && segment ≠ "." }

def text (p : FilePath) : String :=
  if p.root = "" ∧ p.segments.isEmpty then "." else p.root ++ "/".intercalate p.segments

def isAbsolute (p : FilePath) : Bool :=
  p.root ≠ ""

/-- The slashes in front: none of a relative path, one or two of an absolute one. -/
theorem root_cases (s : String) :
    (Text.startsWith s "/" = false ∧ (ofString s).root = "") ∨
    (Text.startsWith s "/" = true ∧ ((ofString s).root = "/" ∨ (ofString s).root = "//")) := by
  rw [Text.startsWith, ofString]
  cases characters : s.toList with
  | nil => exact Or.inl ⟨rfl, rfl⟩
  | cons c cs =>
    by_cases slash : c = '/'
    · subst slash
      refine Or.inr ⟨rfl, ?_⟩
      dsimp only
      split
      · next none => simp at none
      · exact Or.inr rfl
      · exact Or.inl rfl
    · refine Or.inl ⟨?_, ?_⟩
      · simp [List.isPrefixOf, Ne.symm slash]
      · simp [slash]

theorem isAbsolute_ofString (s : String) :
    (ofString s).isAbsolute = Text.startsWith s "/" := by
  rcases root_cases s with ⟨relative, root⟩ | ⟨absolute, root | root⟩
  · rw [isAbsolute, root, relative]
    rfl
  · rw [isAbsolute, root, absolute]
    rfl
  · rw [isAbsolute, root, absolute]
    rfl

def name (p : FilePath) : String :=
  p.segments.getLastD ""

/-- The part of a name from its last dot on. A dot at either end of the name starts none. -/
def suffixOf (name : String) : String :=
  let afterDot := name.toList.reverse.takeWhile (· ≠ '.')
  let beforeDot := (name.toList.reverse.dropWhile (· ≠ '.')).drop 1
  if afterDot.isEmpty || beforeDot.isEmpty then "" else String.ofList ('.' :: afterDot.reverse)

/-- The segments, behind the slashes in front if there are any. -/
def parts (p : FilePath) : List String :=
  if p.isAbsolute then p.root :: p.segments else p.segments

/-- The order of paths: by their first part, then by the second, and so on. -/
def partsLe : List String → List String → Bool
  | [], _ => true
  | _ :: _, [] => false
  | a :: as, b :: bs => decide (a < b) || (a == b && partsLe as bs)

def startsAtHome (p : FilePath) : Bool :=
  !p.isAbsolute && (p.segments.head?.any fun first => Text.startsWith first "~")

def extend (p : FilePath) (suffix : String) : FilePath :=
  ofString (p.text ++ suffix)

/-- The greatest length of a segment, in bytes. -/
def segmentLimit : Nat :=
  255

/-- The length, in bytes, from which on a path is too long. -/
def lengthLimit : Nat :=
  4096

def isTooLong (s : String) : Bool :=
  lengthLimit ≤ s.utf8ByteSize

/-- Whether a text holds the character that ends a path for the system, so that it is no path. -/
def isCutShort (s : String) : Bool :=
  s.toList.contains '\x00'

end FilePath

inductive PathFault
  | notFound
  | notADirectory
  | isADirectory
  | nameTooLong
  deriving DecidableEq, Repr

structure FileError where
  fault : PathFault
  path : String
  deriving DecidableEq, Repr

/-- The number of the fault and its text, and the path in quotes. -/
def FileError.message (e : FileError) : String :=
  let fault := match e.fault with
    | .notFound => "[Errno 2] No such file or directory"
    | .notADirectory => "[Errno 20] Not a directory"
    | .isADirectory => "[Errno 21] Is a directory"
    | .nameTooLong => "[Errno 36] File name too long"
  fault ++ ": " ++ Text.quoted e.path

end JobFlow
