/-!
# Faults

What can go wrong outside the search itself: settings that cannot be read, a store that does not answer,
a written query that cannot be read, and a pattern that is none.
-/

namespace DesktopSearch

/-- A fault with its reason. -/
inductive Fault where
  | settings (reason : String)
  | store (reason : String)
  /-- A fault of a written query, with its line and column if they are known. -/
  | markup (reason : String) (place : Option (Nat × Nat))
  | pattern (reason : String)
  deriving DecidableEq

namespace Fault

/-- The fault as text. -/
def text : Fault → String
  | settings reason => "Config error: " ++ reason
  | store reason => "Store error: " ++ reason
  | markup reason _ => "Serialization error: " ++ reason
  | pattern reason => "Pattern error: " ++ reason

end Fault

end DesktopSearch
