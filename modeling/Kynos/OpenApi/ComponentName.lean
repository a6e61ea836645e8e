import Kynos.OpenApi.PathTemplate

/-!
# Component names

The keys of `components`: ASCII letters, digits, dots, hyphens and underscores.
Any text but the empty one is rewritten into a legal name.
-/

namespace Kynos.OpenApi

/-- `ComponentName::is_valid_char`. -/
def isValidChar (character : Char) : Bool :=
  isAsciiAlphanumeric character || character == '.' || character == '-' || character == '_'

/-- `ComponentName`: a legal key. -/
structure ComponentName where
  text : Text
  written : text ≠ []
  valid : text.all isValidChar = true
  deriving DecidableEq, Repr

namespace ComponentName

/-- `ComponentName::new`. -/
def new (name : Text) : Option ComponentName :=
  if isValid : name ≠ [] ∧ name.all isValidChar = true then
    some ⟨name, isValid.1, isValid.2⟩
  else
    none

/-- A name with each run of illegal characters replaced by an underscore. -/
def replaced (previousWasUnderscore : Bool) : Text → Text
  | [] => []
  | character :: rest =>
      if isValidChar character then
        character :: replaced false rest
      else if previousWasUnderscore then
        replaced true rest
      else
        '_' :: replaced true rest

/-- `ComponentName::sanitized`. -/
def sanitized (name : Text) : Option ComponentName :=
  let out := replaced false name
  let trimmed := Word.trimBy (· == '_') out
  new (if trimmed.isEmpty then out else trimmed)

theorem isValidChar_of_mem_replaced {previousWasUnderscore : Bool} {name : Text} {character : Char}
    (member : character ∈ replaced previousWasUnderscore name) : isValidChar character = true := by
  induction name generalizing previousWasUnderscore with
  | nil => cases member
  | cons first rest ih =>
      rw [replaced] at member
      split at member
      · rename_i isValid
        rcases List.mem_cons.mp member with rfl | later
        · exact isValid
        · exact ih later
      · split at member
        · exact ih member
        · rcases List.mem_cons.mp member with rfl | later
          · decide
          · exact ih later

/-- Every text but the empty one is made a name. -/
theorem exists_sanitized {name : Text} (nonempty : name ≠ []) :
    ∃ legal, sanitized name = some legal := by
  have written : replaced false name ≠ [] := by
    obtain ⟨first, rest, rfl⟩ := List.exists_cons_of_ne_nil nonempty
    rw [replaced]
    split <;> simp
  have legal : ∀ text : Text, text ≠ [] → (∀ character ∈ text, character ∈ replaced false name) →
      ∃ legal, new text = some legal := fun text isWritten inside => by
    have valid : text.all isValidChar = true := List.all_eq_true.mpr fun character member =>
      isValidChar_of_mem_replaced (inside character member)
    exact ⟨⟨text, isWritten, valid⟩, dif_pos ⟨isWritten, valid⟩⟩
  rw [sanitized]
  by_cases isEmpty : (Word.trimBy (· == '_') (replaced false name)).isEmpty = true
  · simp only [isEmpty, if_true]
    exact legal _ written fun character member => member
  · simp only [isEmpty, if_false, Bool.false_eq_true]
    refine legal _ (by simpa using isEmpty) fun character member => ?_
    exact (Word.trimBy_isInfix _ _).subset member

end ComponentName

end Kynos.OpenApi
