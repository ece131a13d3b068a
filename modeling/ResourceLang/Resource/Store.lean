import ResourceLang.Resource.Basic
import Std.Data.HashMap

/-!
Stored resources, by type code and id. Storing under a pair again replaces what was there.
-/

set_option autoImplicit false
set_option relaxedAutoImplicit false

namespace ResourceLang

structure StoredResource where
  name : String
  data : List UInt8
  deriving DecidableEq, Repr

structure Store where
  resources : Std.HashMap (String × Int) StoredResource

namespace Store

def empty : Store := ⟨∅⟩

def find? (store : Store) (code : String) (id : Int) : Option StoredResource :=
  store.resources[(code, id)]?

def data? (store : Store) (code : String) (id : Int) : Option (List UInt8) :=
  (store.find? code id).map StoredResource.data

def name? (store : Store) (code : String) (id : Int) : Option String :=
  (store.find? code id).map StoredResource.name

def size (store : Store) : Nat := store.resources.size

def isEmpty (store : Store) : Bool := store.resources.isEmpty

def insert (store : Store) (code : String) (id : Int) (name : String) (data : List UInt8) : Store :=
  ⟨store.resources.insert (code, id) ⟨name, data⟩⟩

/-- Stores the bytes of a resource under its own code and id. -/
def insertResource (store : Store) (resource : Resource) : Store × Except WriteError Unit :=
  match resource.toBytes with
  | .ok data => (store.insert resource.code resource.id resource.name data, .ok ())
  | .error error => (store, .error error)

def insertResourceLog (resource : Resource) : List Log.Entry :=
  resource.toBytesLog ++
    match resource.toBytes with
    | .ok data =>
      [Log.detail s!"storing {resource.code} #{resource.id} ({data.length} bytes)"]
    | .error _ => []

theorem find?_insert (store : Store) (code other : String) (id n : Int) (name : String)
    (data : List UInt8) :
    (store.insert code id name data).find? other n =
      if code = other ∧ id = n then some ⟨name, data⟩ else store.find? other n := by
  simp [insert, find?, Std.HashMap.getElem?_insert]

end Store

namespace Resource

/-- Reads the bytes stored under the resource's code and id into its slots. -/
def load (resource : Resource) (store : Store) : Resource × Except ReadError Unit :=
  match store.data? resource.code resource.id with
  | none => (resource, .error (.notFound resource.code resource.id))
  | some data => resource.readBytes data

def loadLog (resource : Resource) (store : Store) : List Log.Entry :=
  match store.data? resource.code resource.id with
  | none => []
  | some data => resource.readBytesLog data

end Resource

end ResourceLang
