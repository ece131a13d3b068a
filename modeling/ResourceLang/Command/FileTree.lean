/-!
Files held in memory, as a directory to run the command in without a disk. A path is walked name by
name from that directory, so that different spellings lead to one place, and what stops the walk is
what reading the file would report. Nothing is known of what lies outside the directory.
-/

set_option autoImplicit false
set_option relaxedAutoImplicit false

namespace ResourceLang.Command

/-- Why a file could not be read as text. -/
inductive FileError
  | notFound
  | permissionDenied
  | notDirectory
  | isDirectory
  | nameTooLong
  | notUtf8
  | other (text : String)
  deriving DecidableEq, Repr

def FileError.message : FileError → String
  | notFound => "No such file or directory (os error 2)"
  | permissionDenied => "Permission denied (os error 13)"
  | notDirectory => "Not a directory (os error 20)"
  | isDirectory => "Is a directory (os error 21)"
  | nameTooLong => "File name too long (os error 36)"
  | notUtf8 => "stream did not contain valid UTF-8"
  | other text => text

/-- Bytes as text, which only well-formed UTF-8 is. -/
def decodeText (bs : ByteArray) : Except FileError String :=
  match String.fromUTF8? bs with
  | some text => .ok text
  | none => .error .notUtf8

/-- What stands at a place in a tree. -/
inductive Entry
  | directory
  | file (contents : ByteArray)

/-- Where a path has led to: outside the tree, or to a place inside, given by the names from its
root. -/
inductive Spot
  | outside
  | inside (names : List String)

namespace Spot

/-- Where a path begins. An absolute one has nothing to do with the tree. -/
def start (path : String) : Spot := if path.startsWith "/" then outside else inside []

/-- One name further. No name and a dot stay, and two dots go back, at the root out of the tree. -/
def next (spot : Spot) (name : String) : Spot :=
  match spot with
  | outside => outside
  | inside names =>
    if name ∈ ["", "."] then inside names
    else if name = ".." then if names.isEmpty then outside else inside names.dropLast
    else inside (names ++ [name])

end Spot

/-- What stands where; of two entries at one place the first counts. -/
structure FileTree where
  entries : List (List String × Entry)

namespace FileTree

def empty : FileTree := ⟨[]⟩

/-- The root is a directory in every tree. -/
def entry? (tree : FileTree) (names : List String) : Option Entry :=
  if names.isEmpty then some .directory else tree.entries.lookup names

/-- The entry is put in front, so that it replaces an older one at its place. -/
def put (tree : FileTree) (spot : Spot) (entry : Entry) : FileTree :=
  match spot with
  | .outside => tree
  | .inside names => ⟨(names, entry) :: tree.entries⟩

/-- Makes a directory for each name and a file for the last one. -/
def insertFrom (tree : FileTree) (spot : Spot) (contents : ByteArray) : List String → FileTree
  | [] => tree
  | [name] => tree.put (spot.next name) (.file contents)
  | name :: names =>
    (tree.put (spot.next name) .directory).insertFrom (spot.next name) contents names

/-- The tree with a file at the end of a path and directories on the way there. -/
def insert (tree : FileTree) (path : String) (contents : ByteArray) : FileTree :=
  tree.insertFrom (.start path) contents (path.splitOn "/")

/-- The most bytes that a name may take. -/
def maxName : Nat := 255

/-- One name further on the way to a file. Only a directory leads on, even to itself. -/
def enter (tree : FileTree) (spot : Spot) (name : String) : Except FileError Spot :=
  match spot with
  | .outside => if name ∈ ["", ".", ".."] then .ok .outside else .error .notFound
  | .inside names =>
    match tree.entry? names with
    | some (.file _) => .error .notDirectory
    | _ =>
      if maxName < name.utf8ByteSize then .error .nameTooLong
      else
        match spot.next name with
        | .outside => .ok .outside
        | .inside further =>
          if (tree.entry? further).isSome then .ok (.inside further) else .error .notFound

/-- The text of the file at a path. -/
def read (tree : FileTree) (path : String) : Except FileError String := do
  if path.isEmpty then throw .notFound
  match ← (path.splitOn "/").foldlM tree.enter (.start path) with
  | .outside => throw .isDirectory
  | .inside names =>
    match tree.entry? names with
    | some (.file contents) => decodeText contents
    | _ => throw .isDirectory

end FileTree

end ResourceLang.Command
