import SyntaxForest.Fault.Basic
import SyntaxForest.Pool.Policy
/-!
# Settings of a pool policy

`PoolPolicy.resolve` checks settings and lays them over the standard policy.
Every section and key is optional; what is there must be known and well formed.
-/

namespace SyntaxForest.PoolPolicy

def sectionNames : List String := ["int", "bool", "string", "identifier"]

/-- The settings of a section, if it is there. -/
def readSection (data : Fields) (name : String) : Except Fault (Option Fields) :=
  match Fields.read data name with
  | .absent => .ok none
  | .object _ entries => .ok (some entries)
  | _ => .error (.invalidSetting name "must be an object")

/-- The name of a setting within a section, or of a section. -/
def settingPath (path key : String) : String := if path = "" then key else path ++ "." ++ key

def readInteger (settings : Fields) (path key : String) (fallback : Number)
    (allowNegative : Bool) : Except Fault Number :=
  match Fields.read settings key with
  | .absent => .ok fallback
  | .scalar (.num n) =>
    if !n.isInteger then .error (.invalidSetting (settingPath path key) "must be an integer")
    else if !allowNegative && n.below .zero then
      .error (.invalidSetting (settingPath path key) "must be at least 0")
    else .ok n
  | _ => .error (.invalidSetting (settingPath path key) "must be an integer")

/-- Fail on the first name that is not known. -/
def rejectUnknown (settings : Fields) (path : String) (known : List String) : Except Fault Unit :=
  match (settings.map (·.1)).find? (fun key => !known.contains key) with
  | none => .ok ()
  | some key => .error (.invalidSetting (settingPath path key) "is not a known setting")

def resolveInt (data : Fields) (fallback : IntRange) : Except Fault IntRange := do
  match ← readSection data "int" with
  | none => return fallback
  | some settings =>
    rejectUnknown settings "int" ["min", "max"]
    let min ← readInteger settings "int" "min" fallback.min true
    let max ← readInteger settings "int" "max" fallback.max true
    if max.below min then throw (.invalidSetting "int.min" "must not exceed int.max")
    return { min, max }

def resolveBool (data : Fields) (fallback : Number) : Except Fault Number := do
  match ← readSection data "bool" with
  | none => return fallback
  | some settings =>
    rejectUnknown settings "bool" ["maxEntries"]
    readInteger settings "bool" "maxEntries" fallback false

def resolveText (data : Fields) (name : String) (fallback : TextLimits) :
    Except Fault TextLimits := do
  match ← readSection data name with
  | none => return fallback
  | some settings =>
    rejectUnknown settings name ["maxLength", "maxEntries"]
    let maxLength ← readInteger settings name "maxLength" fallback.maxLength false
    let maxEntries ← readInteger settings name "maxEntries" fallback.maxEntries false
    return { maxLength, maxEntries }

/-- The policy of some settings. -/
def resolve (data : Value) : Except Fault PoolPolicy :=
  match data with
  | .object _ data => do
    rejectUnknown data "" sectionNames
    let int ← resolveInt data standard.int
    let boolEntries ← resolveBool data standard.boolEntries
    let string ← resolveText data "string" standard.string
    let identifier ← resolveText data "identifier" standard.identifier
    return { int, boolEntries, string, identifier }
  | _ => .error (.unreadableConfig "must be an object")

end SyntaxForest.PoolPolicy
