import ResourceLang.Proofs.FilledDefaults
import ResourceLang.Proofs.WriteRuns

/-!
Defaults before writes and after them. A resource and the same one with its gaps filled stay so
related while both are written to in the same way: a write closes a gap in the one and replaces its
default in the other. So it makes no difference when the defaults are filled in, but for how many of
them are still missing by then.
-/

set_option autoImplicit false
set_option relaxedAutoImplicit false

namespace ResourceLang.Proofs.DefaultsAfterWrites

open TypedSlots FieldWrites FilledDefaults WriteRuns

variable {before after : Resource} {index count : Nat} {value : Value}
  {offer : String → Option Token}

/-! ### One write -/

theorem isSet_setAt {resource : Resource} {slot : String} (h : resource.isSet slot = true)
    (index : Nat) (value : Value) : (resource.setAt index value).isSet slot = true := by
  obtain ⟨place, held, hplace, hheld⟩ := isSet_iff.mp h
  by_cases hsame : index = place
  · exact isSet_setAt_self (hsame ▸ hplace) value
  · exact isSet_iff.mpr ⟨place, held, hplace,
      (valueAt?_setAt_of_ne hsame resource value).trans hheld⟩

/-- A value put into both leaves no gap at its index, and all others as they were. -/
theorem filled_setAt (h : Filled offer before after count) (index : Nat) (value : Value) :
    ∃ fewer ≤ count, Filled offer (before.setAt index value) (after.setAt index value) fewer := by
  obtain ⟨indices, rfl, hindices⟩ := h.counted
  refine ⟨(indices.erase index).card, Finset.card_erase_le, ?_, ?_, ?_, ?_, indices.erase index,
    rfl, ?_⟩
  · rw [h.frame]
    rfl
  · intro place held hheld
    rw [valueAt?_setAt] at hheld ⊢
    split_ifs at hheld ⊢
    · exact hheld
    · exact h.kept place held hheld
  · intro place hnone found
    rw [valueAt?_setAt] at hnone ⊢
    split_ifs at hnone ⊢
    exact h.filled place hnone found
  · exact fun slot literal hoffer ↦ isSet_setAt (h.isSet slot literal hoffer) index value
  · intro place
    rw [Finset.mem_erase, hindices, valueAt?_setAt, valueAt?_setAt]
    by_cases hplace : index = place
    · simp [hplace]
    · simp [hplace, Ne.symm hplace]

theorem filled_storeAll (h : Filled offer before after count) (stores : List (Nat × Value)) :
    ∃ fewer ≤ count, Filled offer (storeAll before stores) (storeAll after stores) fewer := by
  induction stores generalizing before after count with
  | nil => exact ⟨count, le_rfl, h⟩
  | cons store rest ih =>
    obtain ⟨fewer, hfewer, hfilled⟩ := filled_setAt h store.1 store.2
    obtain ⟨fewest, hfewest, hlast⟩ := ih hfilled
    exact ⟨fewest, hfewest.trans hfewer, hlast⟩

theorem filled_perform (h : Filled offer before after count) (write : Write) :
    (perform after write).2 = (perform before write).2 ∧
      ∃ fewer ≤ count, Filled offer (perform before write).1 (perform after write).1 fewer := by
  obtain ⟨stores, outcome, hstores⟩ := exists_stores before.template write
  rw [hstores before rfl, hstores after h.template_eq]
  exact ⟨rfl, filled_storeAll h stores⟩

/-! ### Runs -/

theorem filled_run (h : Filled offer before after count) (writes : List Write) :
    outcomes after writes = outcomes before writes ∧
      ∃ fewer ≤ count, Filled offer (run before writes) (run after writes) fewer := by
  induction writes generalizing before after count with
  | nil => exact ⟨rfl, count, le_rfl, h⟩
  | cons write rest ih =>
    obtain ⟨houtcome, fewer, hfewer, hfilled⟩ := filled_perform h write
    obtain ⟨houtcomes, fewest, hfewest, hlast⟩ := ih hfilled
    exact ⟨congrArg₂ List.cons houtcome houtcomes, fewest, hfewest.trans hfewer, hlast⟩

/-- Where the defaults of a declaration can be filled in, the writes of a run come to the same
outcomes after that as without it, and the defaults can be filled in after the run too. Both orders
end with the same resource, the second one fills no more gaps than the first, and what was written
stays as it was written. -/
theorem fillDefaults_run {resource filled : Resource} {decl : TypeDecl} {count : Nat}
    (hfill : resource.fillDefaults decl = (filled, .ok count)) (writes : List Write) :
    outcomes filled writes = outcomes resource writes ∧
    (∃ fewer ≤ count, (run resource writes).fillDefaults decl = (run filled writes, .ok fewer)) ∧
    ∀ index value, (run resource writes).valueAt? index = some value →
      (run filled writes).valueAt? index = some value := by
  obtain ⟨houtcomes, fewer, hfewer, hlast⟩ := filled_run (fillDefaults_eq_ok_iff.mp hfill) writes
  exact ⟨houtcomes, ⟨fewer, hfewer, fillDefaults_eq_ok_iff.mpr hlast⟩, hlast.kept⟩

/-- Freight whose two gaps with a default are filled. -/
def laden : Resource :=
  ((Resource.ofDecl freight 128 "").setAt 1 (.signed .byte 127)).setAt 2 (.signed .byte 127)

/-- A literal for a slot with a default, and two writes to a slot without one, of which the first is
refused. -/
def loading : List Write :=
  [.literal "PosX" (.synthetic .integer "5"), .terminated "Mass" "\x00", .pascal "Mass" "ore"]

/-- After the writes one default is left to fill in, and the literal stays. -/
theorem fillDefaults_run_loading :
    (Resource.ofDecl freight 128 "").fillDefaults freight = (laden, .ok 2) ∧
      outcomes laden loading = [.ok (), .error (.invalidLiteral "Mass" "\\0"), .ok ()] ∧
        (run (.ofDecl freight 128 "") loading).fillDefaults freight = (run laden loading, .ok 1) ∧
          (run laden loading).valueAt? 1 = some (.signed .byte 5) := by
  have hfill : (Resource.ofDecl freight 128 "").fillDefaults freight = (laden, .ok 2) := rfl
  obtain ⟨houtcomes, ⟨fewer, _, hlast⟩, hkept⟩ := fillDefaults_run hfill loading
  obtain rfl : 1 = fewer := Except.ok.inj (congrArg Prod.snd hlast)
  exact ⟨hfill, houtcomes, hlast, hkept 1 _ rfl⟩

end ResourceLang.Proofs.DefaultsAfterWrites
