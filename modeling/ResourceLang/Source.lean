/-!
Source texts and places in them. A source map hands out an id for each text put into it and never
hands one out again: an id whose text has been released stays unknown forever.
-/

set_option autoImplicit false
set_option relaxedAutoImplicit false

namespace ResourceLang

/-- A place in a text: how many bytes of UTF-8 stand before it, its line counted from one, and how
many bytes of that line stand before it. -/
structure Place where
  position : Nat
  line : Nat
  offset : Nat
  deriving DecidableEq, Repr

namespace Place

/-- Where every text begins. -/
def start : Place := ⟨0, 1, 0⟩

/-- The place of what has no text around it. -/
def nowhere : Place := ⟨0, 0, 0⟩

/-- The place after one more character; only a line feed ends a line. -/
def next (place : Place) (c : Char) : Place :=
  if c = '\n' then ⟨place.position + 1, place.line + 1, 0⟩
  else ⟨place.position + c.utf8Size, place.line, place.offset + c.utf8Size⟩

def after (place : Place) (cs : List Char) : Place := cs.foldl next place

theorem after_append (place : Place) (cs ds : List Char) :
    place.after (cs ++ ds) = (place.after cs).after ds := by
  simp [after]

end Place

structure SourceId where
  index : Nat
  deriving DecidableEq, Repr

structure SourceText where
  path : String
  text : String
  deriving DecidableEq, Repr

/-- The files ever put in, by index; a released one leaves its index empty. -/
structure Sources where
  files : List (Option SourceText)
  deriving DecidableEq, Repr

namespace Sources

def empty : Sources := ⟨[]⟩

def insert (map : Sources) (path text : String) : SourceId × Sources :=
  (⟨map.files.length⟩, ⟨map.files ++ [some ⟨path, text⟩]⟩)

def get? (map : Sources) (id : SourceId) : Option SourceText := map.files[id.index]?.join

/-- Releases a file and gives it back. -/
def release (map : Sources) (id : SourceId) : Option SourceText × Sources :=
  (map.get? id, ⟨map.files.set id.index none⟩)

/-- How many files are held. -/
def size (map : Sources) : Nat := map.files.countP Option.isSome

def isEmpty (map : Sources) : Bool := map.size = 0

/-- A place in the file of `source`: its path comes first while the file is held. -/
def describe (map : Sources) (source : Option SourceId) (place : Place) : String :=
  match source.bind map.get? with
  | some file => s!"{file.path}:{place.line}:{place.offset}"
  | none => s!"{place.line}:{place.offset}"

theorem get?_insert_self (map : Sources) (path text : String) :
    (map.insert path text).2.get? (map.insert path text).1 = some ⟨path, text⟩ := by
  simp [insert, get?]

theorem get?_release_self (map : Sources) (id : SourceId) : (map.release id).2.get? id = none := by
  simp only [release, get?, List.getElem?_set_self']
  cases map.files[id.index]? <;> rfl

theorem get?_release_of_ne (map : Sources) {id other : SourceId} (h : id ≠ other) :
    (map.release id).2.get? other = map.get? other := by
  have hne : id.index ≠ other.index := fun he ↦ h (by cases id; cases other; simp_all)
  simp [release, get?, List.getElem?_set_ne hne]

end Sources

end ResourceLang
