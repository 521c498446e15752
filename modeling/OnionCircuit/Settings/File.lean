import OnionCircuit.Settings.Document
import OnionCircuit.Settings.Storage

/-! Loading and saving settings. A file that does not exist stands for the defaults,
and settings remember the file they were loaded from. -/

namespace OnionCircuit

/-- Where a user keeps files. -/
structure UserDirectories where
  home : String
  /-- The directory for settings, if the user has chosen one. -/
  settings : Option String

namespace UserDirectories

/-- A chosen directory counts only if its path starts at the root. -/
def settingsDirectory (user : UserDirectories) : String :=
  match user.settings with
  | some path => if path.startsWith "/" then path else Path.join user.home ".config"
  | none => Path.join user.home ".config"

def settingsPath (user : UserDirectories) : String := Path.join (Path.join user.settingsDirectory "relaycraft") "settings.json"

end UserDirectories

namespace Settings

def ofFile (content : ByteArray) : Except SettingsError Settings :=
  match String.fromUTF8? content with
  | none => .error .unreadable
  | some text =>
    match parse? text.toList with
    | none => .error .malformed
    | some settings => .ok settings

def load (storage : Storage) (path : Path) : Except SettingsError Settings := do
  let settings ← match storage.find? path with
    | none => pure {}
    | some .directory => throw SettingsError.unreadable
    | some (.file content) => ofFile content
  return { settings with source := some path }

/-- The directory of the file is made if nothing is in its place. What was made stays, also if the
file cannot be written. -/
def saveTo (settings : Settings) (storage : Storage) (path : Path) : Storage × Except SettingsError Unit :=
  let (storage, ready) := if storage.contains path.parent then (storage, true) else storage.makeDirectories path.parent
  if ready then
    match storage.write? path (String.ofList settings.text).toUTF8 with
    | some storage => (storage, .ok ())
    | none => (storage, .error .unwritable)
  else (storage, .error .noDirectory)

/-- Saves to where the settings came from. -/
def save (settings : Settings) (storage : Storage) (default : Path) : Storage × Except SettingsError Unit :=
  settings.saveTo storage (settings.source.getD default)

end Settings
end OnionCircuit
