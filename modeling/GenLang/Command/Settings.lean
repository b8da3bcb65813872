import GenLang.Command.Argument
import GenLang.Config

/-!
# Settings on the command line

The switches that all commands share. They change single settings of the configuration that a file
gives, or of the defaults if there is no file.
-/

namespace GenLang.Command

/-- How results are written. -/
inductive Format where
  | text
  | json
deriving DecidableEq, Repr, Inhabited

namespace Format

def switch : Switch :=
  { name := "format", short := some 'f', effect := .take (.oneOf ["text", "json"]) }

/-- The format that is asked for; text if none is. -/
def ofValues (v : Values) : Format :=
  if v.first? switch.name == some "json" then json else text

end Format

/-- Settings that every command takes. -/
structure Settings where
  configFile : Option String := none
  libraryDirectory : Option String := none
  cacheCapacity : Option Nat := none
  maxCallDepth : Option Nat := none
  sequential : Bool := false
deriving DecidableEq, Repr, Inhabited

namespace Settings

def switches : List Switch :=
  [{ name := "config", effect := .take .path },
   { name := "library-dir", effect := .take .path },
   { name := "cache-capacity", effect := .take .word },
   { name := "max-call-depth", effect := .take .word },
   { name := "sequential" },
   { name := "verbose", short := some 'v' },
   { name := "help", short := some 'h', effect := .askHelp },
   { name := "version", short := some 'V', effect := .askVersion }]

def ofValues (v : Values) : Settings where
  configFile := v.first? "config"
  libraryDirectory := v.first? "library-dir"
  cacheCapacity := v.number? "cache-capacity"
  maxCallDepth := v.number? "max-call-depth"
  sequential := v.has "sequential"

/-- Changes a configuration where something is set. -/
def override (s : Settings) (c : Config) : Config :=
  { c with
    libraryDirectory := s.libraryDirectory <|> c.libraryDirectory
    cacheCapacity := s.cacheCapacity.getD c.cacheCapacity
    maxCallDepth := s.maxCallDepth.getD c.maxCallDepth
    parallel := c.parallel && !s.sequential }

/-- The configuration that holds; or what is wrong with its file, the outermost reason first. -/
def resolve {m : Type → Type} [Monad m] (files : Files m) (s : Settings) :
    m (Except (List String) Config) := do
  match s.configFile with
  | none => return .ok (s.override {})
  | some path =>
    match ← Config.load files path with
    | .ok c => return .ok (s.override c)
    | .error e => return .error (("failed to load configuration from " ++ path) :: e.messages)

end Settings

end GenLang.Command
