import ResourceLang.Proofs.StoppedReading
import ResourceLang.Resource.Store

/-!
A store over a whole history of calls. Under a code and an id it answers with what the last call
stored there that succeeded, whatever other calls did before and after it. So a resource that is
stored is loaded again as its slots kept it, until something else is stored in its place.
-/

set_option autoImplicit false
set_option relaxedAutoImplicit false

namespace ResourceLang.Proofs.StoreRuns

open SlotImage TemplateRoundTrip StoppedReading

/-- A call that may change a store. -/
inductive Call
  | insert (code : String) (id : Int) (name : String) (data : List UInt8)
  | insertResource (resource : Resource)

/-- The store that a call leaves behind, whatever comes of the call. -/
def perform (store : Store) : Call → Store
  | .insert code id name data => store.insert code id name data
  | .insertResource resource => (store.insertResource resource).1

/-- The store after some calls. -/
def run (calls : List Call) : Store := calls.foldl perform .empty

/-- What a call stores that succeeds, and under which code and id. -/
inductive Stores : Call → String → Int → StoredResource → Prop
  | insert (code : String) (id : Int) (name : String) (data : List UInt8) :
    Stores (.insert code id name data) code id ⟨name, data⟩
  | insertResource {resource : Resource} {data : List UInt8} (hdata : resource.toBytes = .ok data) :
    Stores (.insertResource resource) resource.code resource.id ⟨resource.name, data⟩

/-- No call stores anything under the code and the id. -/
def Untouched (calls : List Call) (code : String) (id : Int) : Prop :=
  ∀ call ∈ calls, ∀ stored, ¬ Stores call code id stored

/-- The call is the last that stores anything under the code and the id. -/
structure Last (calls : List Call) (code : String) (id : Int) (call : Call)
    (stored : StoredResource) :
    Prop where
  stores : Stores call code id stored
  last : ∃ before after, calls = before ++ call :: after ∧ Untouched after code id

/-- What a store answers after some calls. -/
structure Answers (calls : List Call) (code : String) (id : Int) : Prop where
  last : ∀ call stored, Last calls code id call stored →
    (run calls).data? code id = some stored.data ∧ (run calls).name? code id = some stored.name
  data : (run calls).data? code id = none ↔ Untouched calls code id
  name : (run calls).name? code id = none ↔ Untouched calls code id

variable {calls : List Call} {call : Call} {store : Store} {code : String} {id : Int}
  {stored : StoredResource}

/-! ### One call -/

theorem insertResource_of_ok {resource : Resource} {data : List UInt8}
    (h : resource.toBytes = .ok data) (store : Store) :
    store.insertResource resource =
      (store.insert resource.code resource.id resource.name data, .ok ()) := by
  rw [Store.insertResource, h]

theorem insertResource_of_error {resource : Resource} {error : WriteError}
    (h : resource.toBytes = .error error) (store : Store) :
    store.insertResource resource = (store, .error error) := by
  rw [Store.insertResource, h]

theorem find?_perform_of_stores (h : Stores call code id stored) (store : Store) :
    (perform store call).find? code id = some stored := by
  cases h with
  | insert code id name data => rw [perform, Store.find?_insert, if_pos ⟨rfl, rfl⟩]
  | insertResource hdata =>
    rw [perform, insertResource_of_ok hdata, Store.find?_insert, if_pos ⟨rfl, rfl⟩]

/-- A call that fails, or stores under another code or another id, leaves alone what is stored. -/
theorem find?_perform_of_not_stores (h : ∀ stored, ¬ Stores call code id stored) (store : Store) :
    (perform store call).find? code id = store.find? code id := by
  cases call with
  | insert other n name data =>
    rw [perform, Store.find?_insert, if_neg]
    rintro ⟨rfl, rfl⟩
    exact h _ (.insert other n name data)
  | insertResource resource =>
    cases hdata : resource.toBytes with
    | error error => rw [perform, insertResource_of_error hdata]
    | ok data =>
      rw [perform, insertResource_of_ok hdata, Store.find?_insert, if_neg]
      rintro ⟨rfl, rfl⟩
      exact h _ (.insertResource hdata)

/-! ### Many calls -/

theorem find?_foldl_of_untouched (h : Untouched calls code id) (store : Store) :
    (calls.foldl perform store).find? code id = store.find? code id := by
  induction calls generalizing store with
  | nil => rfl
  | cons call rest ih =>
    obtain ⟨hcall, hrest⟩ := List.forall_mem_cons.mp h
    rw [List.foldl_cons, ih hrest, find?_perform_of_not_stores hcall]

theorem find?_run_of_untouched (h : Untouched calls code id) :
    (run calls).find? code id = none := by
  rw [run, find?_foldl_of_untouched h]
  simp [Store.find?, Store.empty]

theorem find?_run_of_last (h : Last calls code id call stored) :
    (run calls).find? code id = some stored := by
  obtain ⟨hstores, before, after, rfl, huntouched⟩ := h
  rw [run, List.foldl_append, List.foldl_cons, find?_foldl_of_untouched huntouched]
  exact find?_perform_of_stores hstores (run before)

theorem untouched_or_last (calls : List Call) (code : String) (id : Int) :
    Untouched calls code id ∨ ∃ call stored, Last calls code id call stored := by
  induction calls with
  | nil => exact .inl (List.forall_mem_nil _)
  | cons call rest ih =>
    rcases ih with huntouched | ⟨last, stored, hstores, before, after, rfl, hafter⟩
    · by_cases hcall : ∃ stored, Stores call code id stored
      · obtain ⟨stored, hstores⟩ := hcall
        exact .inr ⟨call, stored, hstores, [], rest, rfl, huntouched⟩
      · rw [not_exists] at hcall
        exact .inl (List.forall_mem_cons.mpr ⟨hcall, huntouched⟩)
    · exact .inr ⟨last, stored, hstores, call :: before, after, rfl, hafter⟩

theorem find?_run_eq_none_iff : (run calls).find? code id = none ↔ Untouched calls code id := by
  constructor
  · intro hnone
    rcases untouched_or_last calls code id with huntouched | ⟨call, stored, hlast⟩
    · exact huntouched
    · rw [find?_run_of_last hlast] at hnone
      cases hnone
  · exact find?_run_of_untouched

theorem answers : Answers calls code id where
  last call stored hlast := by
    rw [Store.data?, Store.name?, find?_run_of_last hlast]
    exact ⟨rfl, rfl⟩
  data := by rw [Store.data?, Option.map_eq_none_iff, find?_run_eq_none_iff]
  name := by rw [Store.name?, Option.map_eq_none_iff, find?_run_eq_none_iff]

/-! ### Loading -/

/-- A resource that cannot be written out, and one of the same id under another code, leave the
bytes alone. -/
example : (run [.insert "CRGO" 128 "old" [1], .insertResource (.blank cargo "CRGO" 128 "new"),
    .insert "SHIP" 128 "other" [2]]).data? "CRGO" 128 = some [1] := by
  cbv

end ResourceLang.Proofs.StoreRuns
