import GenLang.Files.Memory
import GenLang.Main
import GenLang.Proofs.Syntax.Grammar
import GenLang.Proofs.Syntax.Soundness
import GenLang.Proofs.Syntax.Completeness
import GenLang.Proofs.Syntax.Recognition
import GenLang.Proofs.Syntax.Layout
import GenLang.Proofs.Syntax.Erasure
import GenLang.Proofs.Syntax.Printing.Statement
import GenLang.Proofs.Syntax.Printing.Declaration
import GenLang.Proofs.Syntax.Formatting
import GenLang.Proofs.Graph
import GenLang.Proofs.Linking.Link
import GenLang.Proofs.Linking.Lowering
import GenLang.Proofs.Linking.Compiled
import GenLang.Proofs.Linking.Classes
import GenLang.Proofs.Linking.Holds
import GenLang.Proofs.Running.Agreement
import GenLang.Proofs.Running.Rules
import GenLang.Proofs.Running.Strict
import GenLang.Proofs.Running.Guarded
import GenLang.Proofs.Running.Statics
import GenLang.Proofs.Running.Balance
import GenLang.Proofs.Running.Transparency
import GenLang.Proofs.Image.Bytes
import GenLang.Proofs.Image.Reading
import GenLang.Proofs.Linking.Joins
import GenLang.Proofs.Linking.Libraries
import GenLang.Proofs.Linking.Soundness
import GenLang.Proofs.Linking.Mirror
import GenLang.Proofs.Linking.Layers
import GenLang.Proofs.Linking.Hierarchies
import GenLang.Proofs.Linking.Standard
import GenLang.Proofs.Linking.Contracts
import GenLang.Proofs.Linking.Provision
import GenLang.Proofs.Image.Nesting
import GenLang.Proofs.Image.RoundTrip
import GenLang.Proofs.Linking.Extension
import GenLang.Proofs.Linking.Widening
import GenLang.Proofs.Linking.Units
import GenLang.Proofs.Caching.Recency
import GenLang.Proofs.Caching.Runs
import GenLang.Proofs.Syntax.Keys
import GenLang.Proofs.Scoping.Compiled
import GenLang.Proofs.Running.Integrity
import GenLang.Proofs.Running.Conduct
import GenLang.Proofs.Running.Natives
import GenLang.Proofs.Running.Order
import GenLang.Proofs.Running.Watched
import GenLang.Proofs.Running.Depth
import GenLang.Proofs.Running.Fields
import GenLang.Proofs.Running.Binding
import GenLang.Proofs.Linking.Fields
import GenLang.Proofs.Linking.Sums
import GenLang.Proofs.Linking.Loading
import GenLang.Proofs.Running.Steps
import GenLang.Proofs.Running.Delivery
import GenLang.Proofs.Generating.Classes
import GenLang.Proofs.Generating.Merging
import GenLang.Proofs.Generating.Naming
import GenLang.Proofs.Generating.Texts
import GenLang.Proofs.Linking.Reordering
import GenLang.Proofs.Linking.Resolution
import GenLang.Proofs.Syntax.Lexemes
import GenLang.Proofs.Syntax.Places
import GenLang.Proofs.Caching.Requests
import GenLang.Proofs.Syntax.Recovery
import GenLang.Proofs.Syntax.Relocation
import GenLang.Proofs.Syntax.Parentheses
import GenLang.Proofs.Bodies.Calls
import GenLang.Proofs.Bodies.Footprint
import GenLang.Proofs.Bodies.Lowering
import GenLang.Proofs.Linking.Stages
import GenLang.Proofs.Bodies.Invocations
import GenLang.Proofs.Bodies.Unused
import GenLang.Proofs.Linking.Cycles
import GenLang.Proofs.Linking.Capabilities
import GenLang.Proofs.Linking.Start
import GenLang.Proofs.Texts.Splitting
import GenLang.Proofs.Texts.Positions
import GenLang.Proofs.Caching.Resolving
import GenLang.Proofs.Running.Assembly
import GenLang.Proofs.Running.Origins
import GenLang.Proofs.Running.Rethrowing
import GenLang.Proofs.Texts.Indexing
import GenLang.Proofs.Running.Repetition
import GenLang.Proofs.Decimal.Literals
import GenLang.Proofs.Linking.System
