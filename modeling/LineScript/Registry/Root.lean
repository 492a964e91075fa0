import LineScript.Text.Basic

/-!
# Registry roots

The five trees a registry is made of, with the long and the short name of each.
-/

namespace LineScript

/-- A root of the registry, in the order the roots are stored. -/
inductive RegRoot where
  | localMachine
  | currentUser
  | classesRoot
  | users
  | currentConfig
  deriving DecidableEq

namespace RegRoot

/-- The long name of a root. -/
def name : RegRoot → String
  | localMachine => "HKEY_LOCAL_MACHINE"
  | currentUser => "HKEY_CURRENT_USER"
  | classesRoot => "HKEY_CLASSES_ROOT"
  | users => "HKEY_USERS"
  | currentConfig => "HKEY_CURRENT_CONFIG"

/-- Every name a root goes by. -/
def names : List (String × RegRoot) := [
  ("HKEY_LOCAL_MACHINE", localMachine), ("HKLM", localMachine), ("HKEY_CURRENT_USER", currentUser),
  ("HKCU", currentUser), ("HKEY_CLASSES_ROOT", classesRoot), ("HKCR", classesRoot), ("HKEY_USERS", users),
  ("HKU", users), ("HKEY_CURRENT_CONFIG", currentConfig), ("HKCC", currentConfig)]

/-- The root a text names, white space around it and ASCII case aside. -/
def ofName? (s : String) : Option RegRoot :=
  names.lookup (Text.asciiUpper (Text.trim s))

end RegRoot

end LineScript
