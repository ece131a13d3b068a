import Mathlib.Data.Finset.Card
import Mathlib.Data.List.Induction
import ResourceLang.Token.Basic

/-!
Ids of source texts over a whole history of a source map. An id stands for the one text that it was
handed out for, up to its release, and for none from then on. So a place is never described by the
path of a text that it is not in.
-/

set_option autoImplicit false
set_option relaxedAutoImplicit false

namespace ResourceLang.Proofs.SourceIds

/-- A call that changes a source map. -/
inductive Call
  | insert (path text : String)
  | release (id : SourceId)
  deriving DecidableEq

def perform (map : Sources) : Call → Sources
  | .insert path text => (map.insert path text).2
  | .release id => (map.release id).2

/-- The map after some calls. -/
def run (calls : List Call) : Sources := calls.foldl perform .empty

/-- A call handed out the id for the file, and the calls `since` have come after it. -/
def HandedOut (calls : List Call) (id : SourceId) (file : SourceText) (since : List Call) : Prop :=
  ∃ before, calls = before ++ .insert file.path file.text :: since ∧
    ((run before).insert file.path file.text).1 = id

/-- A place as it is described in a file, or without one. -/
def address (place : Place) : Option SourceText → String
  | some file => s!"{file.path}:{place.line}:{place.offset}"
  | none => s!"{place.line}:{place.offset}"

/-- What a map tells of an id: the file that it holds under the id, if it holds one. -/
structure Tells (map : Sources) (id : SourceId) (file? : Option SourceText) : Prop where
  get : map.get? id = file?
  release : (map.release id).1 = file?
  location : ∀ token : Token, token.source = some id →
    map.describe token.source token.place = address token.place file?

variable {map : Sources} {calls since : List Call} {id : SourceId} {file : SourceText}

theorem tells_of_get? {file? : Option SourceText} (h : map.get? id = file?) :
    Tells map id file? := by
  refine ⟨h, h, ?_⟩
  intro token htoken
  rw [htoken, Sources.describe, Option.bind_some, h]
  cases file? <;> rfl

/-! ### One call -/

theorem lt_length_of_get? (h : map.get? id = some file) : id.index < map.files.length := by
  rw [Sources.get?, Option.join_eq_some_iff] at h
  exact (List.getElem?_eq_some_iff.mp h).1

theorem length_perform_le (map : Sources) (call : Call) :
    map.files.length ≤ (perform map call).files.length := by
  cases call with
  | insert path text => simp [perform, Sources.insert]
  | release id => simp [perform, Sources.release]

theorem get?_length (files : List (Option SourceText)) :
    Sources.get? ⟨files⟩ ⟨files.length⟩ = none := by
  simp [Sources.get?]

/-- Putting a file in concerns its own id alone. -/
theorem get?_concat (files : List (Option SourceText)) (entry : Option SourceText) (id : SourceId) :
    Sources.get? ⟨files ++ [entry]⟩ id =
      if id = ⟨files.length⟩ then entry else Sources.get? ⟨files⟩ id := by
  by_cases hlast : id = ⟨files.length⟩
  · simp [hlast, Sources.get?]
  · have hne : id.index ≠ files.length := fun hindex ↦ hlast (congrArg SourceId.mk hindex)
    rw [if_neg hlast, Sources.get?, Sources.get?, List.getElem?_append]
    split
    · rfl
    · have hbeyond : files.length < id.index := by omega
      simp [hbeyond.le, Nat.sub_ne_zero_of_lt hbeyond]

/-- An id that was handed out before keeps its file when another text is put in. -/
theorem get?_insert_of_lt (h : id.index < map.files.length) (path text : String) :
    (map.insert path text).2.get? id = map.get? id := by
  have hne : id ≠ ⟨map.files.length⟩ := fun hid ↦ h.ne (congrArg SourceId.index hid)
  rw [Sources.insert, get?_concat, if_neg hne]

theorem get?_insert_eq_some {path text : String}
    (h : (map.insert path text).2.get? id = some file) :
    map.get? id = some file ∨ (map.insert path text).1 = id ∧ file = ⟨path, text⟩ := by
  rw [Sources.insert, get?_concat] at h
  split at h
  · rename_i hlast
    exact .inr ⟨hlast.symm, (Option.some.inj h).symm⟩
  · exact .inl h

theorem get?_release_eq_some {other : SourceId} (h : (map.release other).2.get? id = some file) :
    id ≠ other ∧ map.get? id = some file := by
  have hne : other ≠ id := by
    rintro rfl
    rw [Sources.get?_release_self] at h
    cases h
  rw [Sources.get?_release_of_ne map hne] at h
  exact ⟨hne.symm, h⟩

/-! ### Many calls -/

theorem run_append (before after : List Call) :
    run (before ++ after) = after.foldl perform (run before) := List.foldl_append

theorem length_le_foldl (map : Sources) (calls : List Call) :
    map.files.length ≤ (calls.foldl perform map).files.length := by
  induction calls generalizing map with
  | nil => exact le_rfl
  | cons call rest ih => exact (length_perform_le map call).trans (ih _)

/-- An id that has been handed out and stands for nothing stays so, whatever is put in. -/
theorem get?_foldl_of_none (hlt : id.index < map.files.length) (h : map.get? id = none)
    (calls : List Call) : (calls.foldl perform map).get? id = none := by
  induction calls generalizing map with
  | nil => exact h
  | cons call rest ih =>
    apply ih (hlt.trans_le (length_perform_le map call))
    cases call with
    | insert path text => exact (get?_insert_of_lt hlt path text).trans h
    | release other =>
      by_cases hid : other = id
      · rw [hid]
        exact Sources.get?_release_self map id
      · exact (Sources.get?_release_of_ne map hid).trans h

/-- An id keeps its file exactly as long as it is not released. -/
theorem get?_foldl_of_some (h : map.get? id = some file) (calls : List Call) :
    (calls.foldl perform map).get? id = if .release id ∈ calls then none else some file := by
  induction calls generalizing map with
  | nil => simpa using h
  | cons call rest ih =>
    have hlt := lt_length_of_get? h
    rw [List.foldl_cons]
    by_cases hcall : call = .release id
    · rw [if_pos (by simp [hcall]), hcall]
      apply get?_foldl_of_none (hlt.trans_le (length_perform_le map _))
      exact Sources.get?_release_self map id
    · have hkept : (perform map call).get? id = some file := by
        cases call with
        | insert path text => exact (get?_insert_of_lt hlt path text).trans h
        | release other =>
          have hne : other ≠ id := fun hid ↦ hcall (hid ▸ rfl)
          exact (Sources.get?_release_of_ne map hne).trans h
      rw [ih hkept]
      simp [Ne.symm hcall]

theorem get?_run_of_handedOut (h : HandedOut calls id file since) :
    (run calls).get? id = if .release id ∈ since then none else some file := by
  obtain ⟨before, rfl, rfl⟩ := h
  rw [run_append, List.foldl_cons]
  exact get?_foldl_of_some (Sources.get?_insert_self (run before) file.path file.text) since

/-- The next id is none that was handed out before. -/
theorem ne_of_handedOut (h : HandedOut calls id file since) (path text : String) :
    ((run calls).insert path text).1 ≠ id := by
  obtain ⟨before, rfl, rfl⟩ := h
  have hgrown : (run before).files.length + 1 ≤
      (run (before ++ .insert file.path file.text :: since)).files.length := by
    have hle := length_le_foldl ((run before).insert file.path file.text).2 since
    rw [Sources.insert, List.length_append] at hle
    rw [run_append, List.foldl_cons]
    exact hle
  intro heq
  have hindex : (run (before ++ .insert file.path file.text :: since)).files.length =
      (run before).files.length := congrArg SourceId.index heq
  omega

theorem HandedOut.concat (h : HandedOut calls id file since) (call : Call) :
    HandedOut (calls ++ [call]) id file (since ++ [call]) := by
  obtain ⟨before, rfl, hid⟩ := h
  exact ⟨before, by simp, hid⟩

theorem handedOut_of_get?_run (h : (run calls).get? id = some file) :
    ∃ since, HandedOut calls id file since := by
  induction calls using List.reverseRecOn with
  | nil => simp [run, Sources.empty, Sources.get?] at h
  | append_singleton calls call ih =>
    rw [run_append, List.foldl_cons, List.foldl_nil] at h
    have hkept (hget : (run calls).get? id = some file) :
        ∃ since, HandedOut (calls ++ [call]) id file since := by
      obtain ⟨since, hsince⟩ := ih hget
      exact ⟨since ++ [call], hsince.concat call⟩
    cases call with
    | insert path text =>
      rcases get?_insert_eq_some h with hget | ⟨hid, rfl⟩
      · exact hkept hget
      · exact ⟨[], calls, rfl, hid⟩
    | release other => exact hkept (get?_release_eq_some h).2

theorem exists_get?_run_iff (calls : List Call) (id : SourceId) :
    (∃ file, (run calls).get? id = some file) ↔
      ∃ file since, HandedOut calls id file since ∧ .release id ∉ since := by
  constructor
  · rintro ⟨file, hget⟩
    obtain ⟨since, hsince⟩ := handedOut_of_get?_run hget
    refine ⟨file, since, hsince, ?_⟩
    intro hreleased
    rw [get?_run_of_handedOut hsince, if_pos hreleased] at hget
    cases hget
  · rintro ⟨file, since, hsince, hreleased⟩
    exact ⟨file, by rw [get?_run_of_handedOut hsince, if_neg hreleased]⟩

/-! ### How many files there are -/

/-- The size of a map counts the ids that stand for a file. -/
theorem exists_card_eq_size (map : Sources) :
    ∃ held : Finset SourceId, map.size = held.card ∧
      ∀ id, id ∈ held ↔ ∃ file, map.get? id = some file := by
  obtain ⟨files⟩ := map
  induction files using List.reverseRecOn with
  | nil => exact ⟨∅, rfl, by simp [Sources.get?]⟩
  | append_singleton files entry ih =>
    obtain ⟨held, hsize, hheld⟩ := ih
    have hnew : ⟨files.length⟩ ∉ held := by
      rw [hheld, get?_length]
      simp
    cases entry with
    | none =>
      refine ⟨held, ?_, ?_⟩
      · rw [← hsize, Sources.size, List.countP_append]
        rfl
      · intro id
        rw [get?_concat, hheld]
        by_cases hlast : id = ⟨files.length⟩
        · simp [hlast, get?_length]
        · rw [if_neg hlast]
    | some file =>
      refine ⟨insert ⟨files.length⟩ held, ?_, ?_⟩
      · rw [Finset.card_insert_of_notMem hnew, ← hsize, Sources.size, List.countP_append]
        rfl
      · intro id
        rw [get?_concat, Finset.mem_insert, hheld]
        by_cases hlast : id = ⟨files.length⟩
        · simp [hlast]
        · simp [hlast]

/-- Whatever was put in and released before, an id is new when it is handed out. From then on it
stands for the file that it was handed out for until it is released, and for none after that; an id
that was never handed out stands for none either. Releasing an id concerns no other one, and the
files that are held are those of the ids that were handed out and not released since. -/
theorem tells_run (calls : List Call) :
    (∀ id file since, HandedOut calls id file since →
      (∀ path text, ((run calls).insert path text).1 ≠ id) ∧
        Tells (run calls) id (if .release id ∈ since then none else some file)) ∧
    (∀ id, (∀ file since, ¬ HandedOut calls id file since) → Tells (run calls) id none) ∧
    (∀ id other, other ≠ id → (run (calls ++ [.release id])).get? other = (run calls).get? other) ∧
    ∃ held : Finset SourceId, (run calls).size = held.card ∧
      ∀ id, id ∈ held ↔ ∃ file since, HandedOut calls id file since ∧ .release id ∉ since := by
  refine ⟨?_, ?_, ?_, ?_⟩
  · intro id file since hsince
    exact ⟨ne_of_handedOut hsince, tells_of_get? (get?_run_of_handedOut hsince)⟩
  · intro id hnever
    apply tells_of_get?
    by_contra hsome
    obtain ⟨file, hfile⟩ := Option.ne_none_iff_exists'.mp hsome
    obtain ⟨since, hsince⟩ := handedOut_of_get?_run hfile
    exact hnever file since hsince
  · intro id other hne
    rw [run_append]
    exact Sources.get?_release_of_ne (run calls) hne.symm
  · obtain ⟨held, hsize, hheld⟩ := exists_card_eq_size (run calls)
    exact ⟨held, hsize, fun id ↦ (hheld id).trans (exists_get?_run_iff calls id)⟩

/-- A place in a released file is not taken for one in the file that was put in next. -/
example : (run [.insert "a.kdl" "x", .release ⟨0⟩, .release ⟨0⟩, .insert "b.kdl" "y"]).describe
  (some ⟨0⟩) ⟨0, 1, 0⟩ =
    "1:0" := by
  rfl

end ResourceLang.Proofs.SourceIds
