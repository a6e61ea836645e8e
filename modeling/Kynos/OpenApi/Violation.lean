import Kynos.Text.Str

/-!
# Violations

What a validator reports of a document: where, how bad it is, and what is wrong.
-/

namespace Kynos.OpenApi

/-- `Severity`. -/
inductive Severity
  | error
  | warning
  deriving DecidableEq

/-- `SpecError`, as far as tags, path parameters and links go. -/
inductive SpecError
  | undeclaredPathVariable (name : Text)
  | unusedPathParameter (name : Text)
  | duplicateTag (name : Text)
  | unknownTagParent (name parent : Text)
  | tagParentCycle (name : Text)
  | unknownLinkOperationId (operationId : Text)
  | unresolvedLinkOperationRef (operationRef : Text)
  deriving DecidableEq

/-- `Violation`. -/
structure Violation where
  location : Text
  severity : Severity
  error : SpecError
  deriving DecidableEq

/-- `Violation::error`. -/
def Violation.ofError (location : Text) (error : SpecError) : Violation where
  location := location
  severity := .error
  error := error

end Kynos.OpenApi
