-- SUMMARY: Directories of files, and what reading a path in one gives.

/-!
# File trees

A path is read from a directory, component by component. Empty components and
single dots stay where they are, and two dots lead back to the directory above,
but all of them ask for a directory. Nothing is known of what lies above the
directory that a path is read from, so only directories are found there.
-/

namespace LogoSyntax

/-- Why a text cannot be read. -/
inductive ReadError where
  /-- A reason given by the system that the file is on, with its number. -/
  | system (reason : String) (number : Nat)
  | notText
deriving DecidableEq, Repr

namespace ReadError

/-- Nothing is found under the path. -/
def notFound : ReadError :=
  system "No such file or directory" 2

/-- A file stands where the path asks for a directory. -/
def notDirectory : ReadError :=
  system "Not a directory" 20

/-- The path leads to a directory. -/
def isDirectory : ReadError :=
  system "Is a directory" 21

/-- The error in words. -/
def message : ReadError → String
  | system reason number => reason ++ " (os error " ++ toString number ++ ")"
  | notText => "stream did not contain valid UTF-8"

end ReadError

/-- The text that some bytes encode. -/
def readText (bytes : ByteArray) : Except ReadError String :=
  match String.fromUTF8? bytes with
  | some text => .ok text
  | none => .error .notText

/-- The bytes of a text encode it. -/
theorem readText_toUTF8 (text : String) : readText text.toUTF8 = .ok text := by
  rw [readText, String.fromUTF8?, String.toUTF8_eq_toByteArray, dif_pos text.isValidUTF8]
  rfl

/-- A file or a directory. -/
inductive FileTree where
  | file (bytes : ByteArray)
  | directory (entries : List (String × FileTree))

namespace FileTree

/-- The components of a path. -/
def components (path : String) : List String :=
  path.splitOn "/"

/-- Whether a component stays in the directory that it is looked up in. -/
def stays (component : String) : Bool :=
  component = "" || component = "."

/-- The directory with nothing in it. -/
def empty : FileTree :=
  directory []

/-- The tree under a name. -/
def child? (name : String) : List (String × FileTree) → Option FileTree
  | [] => none
  | (n, t) :: rest => if n = name then some t else child? name rest

/-- The entries with another tree under a name. -/
def withChild (name : String) (t : FileTree) :
    List (String × FileTree) → List (String × FileTree)
  | [] => [(name, t)]
  | (n, u) :: rest => if n = name then (n, t) :: rest else (n, u) :: withChild name t rest

/-- The directory with a tree at a path, and with the directories on the way to it. -/
def insert (added : FileTree) : List String → FileTree → FileTree
  | [], _ => added
  | name :: names, directory entries =>
    directory (withChild name (insert added names ((child? name entries).getD empty)) entries)
  | name :: names, file _ => directory [(name, insert added names empty)]

/-- The tree with a directory at a path. What is in it already stays. -/
def addDirectory (t : FileTree) (path : String) : FileTree :=
  go ((components path).filter fun c => !stays c) t
where
  /-- Walks down and makes the directories that are missing. -/
  go : List String → FileTree → FileTree
    | name :: names, directory entries =>
      directory (withChild name (go names ((child? name entries).getD empty)) entries)
    | _, t => t

/-- The tree with a file at a path. -/
def addFile (t : FileTree) (path : String) (bytes : ByteArray) : FileTree :=
  insert (file bytes) ((components path).filter fun c => !stays c) t

/-- What some components of a path lead to from a tree, below some directories
    of which the last comes first. -/
def walk (above : List FileTree) (t : FileTree) : List String → Except ReadError FileTree
  | [] => .ok t
  | name :: names =>
    match t with
    | file _ => .error .notDirectory
    | directory entries =>
      if stays name then walk above t names
      else if name = ".." then walk above.tail (above.head?.getD empty) names
      else
        match child? name entries with
        | some u => walk (t :: above) u names
        | none => .error .notFound

/-- What a path leads to. An absolute path starts above everything that is known. -/
def find (t : FileTree) (path : String) : Except ReadError FileTree :=
  if path = "" then .error .notFound
  else if path.startsWith "/" then walk [] empty (components path)
  else walk [] t (components path)

/-- Whether a path leads to anything. -/
def contains (t : FileTree) (path : String) : Bool :=
  (t.find path).isOk

/-- The text of the file at a path. -/
def read (t : FileTree) (path : String) : Except ReadError String :=
  match t.find path with
  | .ok (file bytes) => readText bytes
  | .ok (directory _) => .error .isDirectory
  | .error e => .error e

theorem read_of_find {t : FileTree} {path text : String}
    (h : t.find path = .ok (file text.toUTF8)) : t.read path = .ok text := by
  rw [read, h]
  exact readText_toUTF8 text

/-- A path that is read leads to something. -/
theorem contains_of_read {t : FileTree} {path text : String} (h : t.read path = .ok text) :
    t.contains path = true := by
  rw [read] at h
  rw [contains]
  cases hfind : t.find path with
  | ok => rfl
  | error e => simp [hfind] at h

end FileTree

end LogoSyntax
