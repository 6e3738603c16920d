import SyntaxForest.Settings.Policy
import SyntaxForest.Text.Json
import SyntaxForest.Yaml.Document
/-!
# Policies from a directory

A directory may hold a settings file, in YAML or in JSON. `Directory.loadPolicy`
reads the first there is.
-/

namespace SyntaxForest

/-- What stands under a name in a directory. -/
inductive DirectoryEntry where
  | file (text : String)
  | folder
deriving DecidableEq, Inhabited

/-- What was put into a directory, oldest first. What is put under a name takes the
place of what was there. -/
abbrev Directory := List (String × DirectoryEntry)

inductive SettingsFormat where
  | yaml
  | json
deriving DecidableEq, Inhabited

namespace SettingsFormat

/-- Formats in the order in which their files are looked for. -/
def all : List SettingsFormat := [.yaml, .json]

def fileName : SettingsFormat → String
  | .yaml => "arbor.config.yaml"
  | .json => "arbor.config.json"

def name : SettingsFormat → String
  | .yaml => "YAML"
  | .json => "JSON"

def parse? : SettingsFormat → String → Option Value
  | .yaml, text => Yaml.parse? text
  | .json, text => Json.parse? text

end SettingsFormat

namespace Directory

def entry? (d : Directory) (name : String) : Option DirectoryEntry := Fields.find? d.reverse name

/-- The first settings file there is. -/
def settings? (d : Directory) : Option (SettingsFormat × DirectoryEntry) :=
  SettingsFormat.all.findSome? (fun format =>
    (d.entry? format.fileName).map (fun entry => (format, entry)))

/-- The policy a directory asks for; none when it holds no settings. A file that
says nothing asks for the standard policy. -/
def loadPolicy (d : Directory) : Except Fault (Option PoolPolicy) :=
  match d.settings? with
  | none => .ok none
  | some (_, .folder) => .error (.unreadableConfig "failed to read file (...)")
  | some (format, .file text) =>
    match format.parse? text with
    | none => .error (.unreadableConfig ("invalid " ++ format.name ++ " (...)"))
    | some .null => .ok (some .standard)
    | some data => (PoolPolicy.resolve data).map some

end Directory

end SyntaxForest
