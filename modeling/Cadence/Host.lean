/-
What a program finds around it: files and variables.
-/
namespace Cadence

/-- The files and variables around a program. -/
structure Host where
  /-- The bytes of a file. -/
  file? : String → Option (List UInt8)
  /-- Whether a path leads to a folder. -/
  isFolder : String → Bool
  /-- The value of a variable. -/
  env? : String → Option String

/-- The value of a variable that is not empty. -/
def Host.setting? (h : Host) (name : String) : Option String :=
  (h.env? name).filter (!·.isEmpty)

end Cadence
