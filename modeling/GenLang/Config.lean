import GenLang.Cache
import GenLang.Files
import GenLang.Interpreter
import GenLang.Json.Reader
import GenLang.Path

/-!
# Configuration

Settings of a run. Each has a default, and a configuration file names only those it changes: as an
object, or as an array of the first settings in order.
-/

namespace GenLang

/-- Settings of a run. -/
structure Config where
  /-- How many compiled generator sources are kept. -/
  cacheCapacity : Nat := Cache.defaultCapacity
  maxCallDepth : Nat := 256
  programFile : String := "Program.gen"
  generatorFile : String := "Generator.gen"
  /-- A directory of further libraries. -/
  libraryDirectory : Option String := none
  parallel : Bool := true
deriving DecidableEq, Repr, Inhabited

/-- Why there is no configuration. -/
inductive ConfigError where
  | unreadable (path cause : String)
  | invalid
deriving DecidableEq, Repr, Inhabited

/-- What is wrong and, as far as it is known, why. -/
def ConfigError.messages : ConfigError → List String
  | unreadable path cause => ["failed to read " ++ path ++ ": " ++ cause, cause]
  | invalid => ["invalid configuration"]

namespace Config

def limits (c : Config) : Limits :=
  { maxCallDepth := c.maxCallDepth }

/-! ## As JSON -/

/-- The settings by name, in order. -/
def members (c : Config) : List (String × Json) :=
  [("plugin_cache_capacity", .nat c.cacheCapacity),
   ("max_call_depth", .nat c.maxCallDepth),
   ("program_file_name", .str c.programFile),
   ("generator_file_name", .str c.generatorFile),
   ("library_dir", .ofOption .str c.libraryDirectory),
   ("parallel_generators", .bool c.parallel)]

/-- The names of the settings. -/
def keys : List String :=
  (members {}).map (·.1)

/-- Only a directory may be null. -/
def readDirectory? : Json → Option (Option String)
  | .null => some none
  | j => j.asString?.map some

/-- Changes a setting, if there is one of that name and the value fits. -/
def set? (c : Config) (key : String) (value : Json) : Option Config :=
  match key with
  | "plugin_cache_capacity" => value.asWord?.map fun n => { c with cacheCapacity := n }
  | "max_call_depth" => value.asWord?.map fun n => { c with maxCallDepth := n }
  | "program_file_name" => value.asString?.map fun s => { c with programFile := s }
  | "generator_file_name" => value.asString?.map fun s => { c with generatorFile := s }
  | "library_dir" => (readDirectory? value).map fun d => { c with libraryDirectory := d }
  | "parallel_generators" => value.asBool?.map fun b => { c with parallel := b }
  | _ => none

/-- The defaults with some settings changed, none of them twice. -/
def ofMembers? (members : List (String × Json)) : Option Config :=
  if (members.map (·.1)).Nodup then
    members.foldlM (fun c m => set? c m.1 m.2) {}
  else none

def ofJson? : Json → Option Config
  | .obj members => ofMembers? members
  | .arr items => if items.length ≤ keys.length then ofMembers? (keys.zip items) else none
  | _ => none

/-- Reads a configuration text. -/
def read? (text : String) : Option Config :=
  (Json.read? text).bind ofJson?

/-! ## From a file -/

/-- A relative directory of libraries is seen from the directory of the configuration file. -/
def rebase (c : Config) (path : String) : Config :=
  match c.libraryDirectory, Path.parent? path with
  | some directory, some parent => { c with libraryDirectory := some (Path.join parent directory) }
  | _, _ => c

/-- Reads a configuration file. -/
def load {m : Type → Type} [Monad m] (files : Files m) (path : String) :
    m (Except ConfigError Config) := do
  match ← files.readText path with
  | .error cause => return .error (.unreadable path cause)
  | .ok text =>
    match read? text with
    | some c => return .ok (c.rebase path)
    | none => return .error .invalid

end Config

end GenLang
