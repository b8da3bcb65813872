/-!
# The standard libraries

`System` is what every program may use, `Generation` what source generators are written against.
Both are kept as lines, because places in them are reported by line.
-/

namespace GenLang

namespace StandardLibrary

/-- The console, conversions, text, numbers, exceptions and tasks. -/
def systemLines : List String :=
  ["// Core runtime surface available to every compilation.",
   "",
   "static type Console \x7b",
   "    extern static fn WriteLine(value = \"\");",
   "    extern static fn Write(value);",
   "\x7d",
   "",
   "static type Convert \x7b",
   "    extern static fn ToString(value) -> String;",
   "    extern static fn ToInt(value) -> Int;",
   "\x7d",
   "",
   "static type Text \x7b",
   "    static fn Join(separator, items) -> String \x7b",
   "        return items.Join(separator);",
   "    \x7d",
   "",
   "    static fn Repeat(text, count) -> String \x7b",
   "        let result = \"\";",
   "        let i = 0;",
   "        while i < count \x7b",
   "            result = result + text;",
   "            i = i + 1;",
   "        \x7d",
   "        return result;",
   "    \x7d",
   "",
   "    static fn IsNullOrEmpty(text) -> Bool \x7b",
   "        return text == null || text == \"\";",
   "    \x7d",
   "\x7d",
   "",
   "static type Math \x7b",
   "    static fn Max(a, b) \x7b",
   "        if a > b \x7b",
   "            return a;",
   "        \x7d",
   "        return b;",
   "    \x7d",
   "",
   "    static fn Min(a, b) \x7b",
   "        if a < b \x7b",
   "            return a;",
   "        \x7d",
   "        return b;",
   "    \x7d",
   "",
   "    static fn Abs(value) \x7b",
   "        if value < 0 \x7b",
   "            return -value;",
   "        \x7d",
   "        return value;",
   "    \x7d",
   "\x7d",
   "",
   "static type Environment \x7b",
   "    static let NewLine = \"\\n\";",
   "\x7d",
   "",
   "type Exception \x7b",
   "    let Message;",
   "",
   "    fn init(message = \"\") \x7b",
   "        self.Message = message;",
   "    \x7d",
   "\x7d",
   "",
   "type Task \x7b\x7d",
   "",
   "static type Tasks \x7b",
   "    extern static fn FromResult(value) -> Task;",
   "\x7d"]

/-- The contract between generators and their host. -/
def generationLines : List String :=
  ["// Source generator contract.",
   "",
   "capability Generator \x7b",
   "    fn Execute(context);",
   "\x7d",
   "",
   "static type DiagnosticSeverity \x7b",
   "    static let Error = \"Error\";",
   "    static let Warning = \"Warning\";",
   "    static let Info = \"Info\";",
   "\x7d",
   "",
   "abstract type GeneratorContext \x7b",
   "    extern fn AddSource(hintName, text);",
   "    extern fn ReportDiagnostic(severity, id, message);",
   "    extern fn IsCancellationRequested() -> Bool;",
   "\x7d"]

/-- A text of lines, each with its line feed. -/
def textOfLines (lines : List String) : String :=
  String.join (lines.map (· ++ "\n"))

/-- Names and texts in the order in which they are compiled. -/
def all : List (String × String) :=
  [("System", textOfLines systemLines), ("Generation", textOfLines generationLines)]

end StandardLibrary

end GenLang
