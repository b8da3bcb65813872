import GenLang.Library.Standard

/-!
# Samples

Programs with generators that go with them, for a first look at what generators do. Like the
libraries they are kept as lines.
-/

namespace GenLang

/-- A program and a generator for it. -/
structure Sample where
  name : String
  program : String
  generator : String
deriving DecidableEq, Repr, Inhabited

namespace Sample

/-- A program that calls a type which is generated. -/
def helloProgram : List String :=
  ["type Program \x7b",
   "    static fn Main() \x7b",
   "        Console.WriteLine(Greeter.Greeting());",
   "    \x7d",
   "\x7d"]

/-- Adds the type that is called. -/
def helloGenerator : List String :=
  ["// Adds a Greeter type the program can call.",
   "type HelloGenerator : Generator \x7b",
   "    fn Execute(context) \x7b",
   "        context.AddSource(\"Greeter\", @\"",
   "static type Greeter \x7b",
   "    static fn Greeting() -> String \x7b",
   "        return \"\"Hello from generated code!\"\";",
   "    \x7d",
   "\x7d",
   "\");",
   "    \x7d",
   "\x7d"]

/-- A program that asks for services by name. -/
def dependencyInjectionProgram : List String :=
  ["capability IClock \x7b",
   "    fn Now();",
   "\x7d",
   "",
   "type FixedClock : IClock \x7b",
   "    fn Now() \x7b return \"09:00\"; \x7d",
   "\x7d",
   "",
   "type Greeter \x7b",
   "    let clock;",
   "",
   "    fn init(clock: IClock) \x7b",
   "        self.clock = clock;",
   "    \x7d",
   "",
   "    fn Greet(name) \x7b",
   "        return \"Good morning \" + name + \", it is \" + clock.Now() + \".\";",
   "    \x7d",
   "\x7d",
   "",
   "type Program \x7b",
   "    static fn Main() \x7b",
   "        let greeter = ServiceLocator.GetService(\"Greeter\");",
   "        Console.WriteLine(greeter.Greet(\"Ada\"));",
   "    \x7d",
   "\x7d"]

/-- Builds the services that are asked for. -/
def dependencyInjectionGenerator : List String :=
  ["// Builds a ServiceLocator for every literal ServiceLocator.GetService(\"Name\")",
   "// call, wiring constructor parameters by their type annotation.",
   "type ServiceLocatorGenerator : Generator \x7b",
   "    fn Execute(context) \x7b",
   "        let compilation = context.Compilation;",
   "        let requested = [];",
   "        for call in compilation.Invocations() \x7b",
   "            if call.Type == \"ServiceLocator\" && call.Method == \"GetService\" \x7b",
   "                let name = call.Arguments[0];",
   "                if name == null \x7b",
   "                    context.ReportDiagnostic(DiagnosticSeverity.Error, \"DI0001\",",
   "                        \"GetService in \" + call.Caller + \" needs a literal type name.\");",
   "                \x7d else if !requested.Contains(name) \x7b",
   "                    requested.Add(name);",
   "                \x7d",
   "            \x7d",
   "        \x7d",
   "",
   "        let source = \"static type ServiceLocator \x7b\\n    static fn GetService(name) \x7b\\n\";",
   "        for name in requested \x7b",
   "            let construction = Build(context, name, []);",
   "            source = source + \"        if name == \\\"\" + name + \"\\\" \x7b return \" + construction + \"; \x7d\\n\";",
   "        \x7d",
   "        source = source + \"        throw new Exception(\\\"Unknown service '\\\" + name + \\\"'.\\\");\\n    \x7d\\n\x7d\\n\";",
   "        context.AddSource(\"ServiceLocator\", source);",
   "    \x7d",
   "",
   "    fn Build(context, name, path) \x7b",
   "        let info = context.Compilation.GetType(name);",
   "        if info == null \x7b",
   "            context.ReportDiagnostic(DiagnosticSeverity.Error, \"DI0002\", \"Service type '\" + name + \"' was not found.\");",
   "            return \"null\";",
   "        \x7d",
   "        if info.IsCapability \x7b",
   "            let implementations = context.Compilation.Implementations(name);",
   "            if implementations.Count != 1 \x7b",
   "                context.ReportDiagnostic(DiagnosticSeverity.Error, \"DI0003\",",
   "                    \"Capability '\" + name + \"' needs exactly one implementation, found \" + implementations.Count + \".\");",
   "                return \"null\";",
   "            \x7d",
   "            info = implementations[0];",
   "            name = info.Name;",
   "        \x7d",
   "        if path.Contains(name) \x7b",
   "            context.ReportDiagnostic(DiagnosticSeverity.Error, \"DI0004\", \"Circular dependency on '\" + name + \"'.\");",
   "            return \"null\";",
   "        \x7d",
   "",
   "        path.Add(name);",
   "        let args = [];",
   "        for parameter in info.ConstructorParameters \x7b",
   "            if parameter.Type == null \x7b",
   "                context.ReportDiagnostic(DiagnosticSeverity.Warning, \"DI0005\",",
   "                    \"Parameter '\" + parameter.Name + \"' of '\" + name + \"' has no type; passing null.\");",
   "                args.Add(\"null\");",
   "            \x7d else \x7b",
   "                args.Add(Build(context, parameter.Type, path));",
   "            \x7d",
   "        \x7d",
   "        path.RemoveAt(path.Count - 1);",
   "        return \"new \" + name + \"(\" + args.Join(\", \") + \")\";",
   "    \x7d",
   "\x7d"]

/-- A program with types of every kind. -/
def describeProgram : List String :=
  ["capability IShape \x7b",
   "    fn Area();",
   "\x7d",
   "",
   "abstract type Shape : IShape \x7b",
   "    fn Describe() \x7b return \"shape with area \" + self.Area(); \x7d",
   "\x7d",
   "",
   "type Square : Shape \x7b",
   "    let side;",
   "    fn init(side) \x7b self.side = side; \x7d",
   "    fn Area() \x7b return side * side; \x7d",
   "\x7d",
   "",
   "type Program \x7b",
   "    static fn Main() \x7b",
   "        Catalog.Print();",
   "        Console.WriteLine(new Square(3).Describe());",
   "    \x7d",
   "\x7d"]

/-- Adds a type that lists the types of the program. -/
def describeGenerator : List String :=
  ["// Emits a Catalog type that lists the program's types and their methods.",
   "type DescribeGenerator : Generator \x7b",
   "    fn Execute(context) \x7b",
   "        let lines = [];",
   "        for info in context.Compilation.Types() \x7b",
   "            let kind = \"type\";",
   "            if info.IsCapability \x7b",
   "                kind = \"capability\";",
   "            \x7d else if info.IsStatic \x7b",
   "                kind = \"static type\";",
   "            \x7d else if info.IsAbstract \x7b",
   "                kind = \"abstract type\";",
   "            \x7d",
   "            let methods = [];",
   "            for method in info.Methods \x7b",
   "                methods.Add(method.Name + \"/\" + method.Parameters.Count);",
   "            \x7d",
   "            lines.Add(kind + \" \" + info.Name + \": \" + methods.Join(\", \"));",
   "        \x7d",
   "",
   "        let body = \"\";",
   "        for line in lines \x7b",
   "            body = body + \"        Console.WriteLine(\\\"\" + line + \"\\\");\\n\";",
   "        \x7d",
   "        context.AddSource(\"Catalog\", \"static type Catalog \x7b\\n    static fn Print() \x7b\\n\" + body + \"    \x7d\\n\x7d\\n\");",
   "    \x7d",
   "\x7d"]

/-- A sample of lines. -/
def ofLines (name : String) (program generator : List String) : Sample :=
  ⟨name, StandardLibrary.textOfLines program, StandardLibrary.textOfLines generator⟩

/-- All samples in the order in which they are listed. -/
def all : List Sample :=
  [ofLines "hello" helloProgram helloGenerator,
   ofLines "dependency-injection" dependencyInjectionProgram dependencyInjectionGenerator,
   ofLines "describe" describeProgram describeGenerator]

def names : List String :=
  all.map (·.name)

def find? (name : String) : Option Sample :=
  all.find? (·.name == name)

end Sample

end GenLang
