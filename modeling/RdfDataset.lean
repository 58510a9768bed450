import RdfDataset.Dataset.Basic
import RdfDataset.Dataset.BlankNode
import RdfDataset.Dataset.Collection
import RdfDataset.Dataset.Query
import RdfDataset.Document.Error
import RdfDataset.Document.Format
import RdfDataset.Document.Line
import RdfDataset.Document.Reader
import RdfDataset.Document.Report
import RdfDataset.Document.Statement
import RdfDataset.Document.Token
import RdfDataset.Document.Turtle.Block
import RdfDataset.Document.Turtle.Progress
import RdfDataset.Document.Turtle.Statement
import RdfDataset.Document.Turtle.Token
import RdfDataset.Document.Writer
import RdfDataset.GraphIndex
import RdfDataset.Interner
import RdfDataset.Iri.Basic
import RdfDataset.Iri.IpAddress
import RdfDataset.Iri.Resolve
import RdfDataset.Json.Value
import RdfDataset.LanguageTag
import RdfDataset.PrefixMap
import RdfDataset.Proofs.Collection.Alike
import RdfDataset.Proofs.Collection.Among
import RdfDataset.Proofs.Collection.Cell
import RdfDataset.Proofs.Collection.Chain
import RdfDataset.Proofs.Collection.Extract
import RdfDataset.Proofs.Collection.Removal
import RdfDataset.Proofs.Collection.Ring
import RdfDataset.Proofs.Collection.Walk
import RdfDataset.Proofs.Dataset.Alike
import RdfDataset.Proofs.Dataset.Anonymous
import RdfDataset.Proofs.Dataset.BlankNode
import RdfDataset.Proofs.Dataset.Call
import RdfDataset.Proofs.Dataset.Change
import RdfDataset.Proofs.Dataset.Counter
import RdfDataset.Proofs.Dataset.Enumerate
import RdfDataset.Proofs.Dataset.Levels
import RdfDataset.Proofs.Dataset.Load
import RdfDataset.Proofs.Dataset.Lockstep
import RdfDataset.Proofs.Dataset.Numbers
import RdfDataset.Proofs.Dataset.Pruning
import RdfDataset.Proofs.Dataset.Quads
import RdfDataset.Proofs.Dataset.Reachable
import RdfDataset.Proofs.Dataset.Refused
import RdfDataset.Proofs.Dataset.Replay
import RdfDataset.Proofs.Dataset.Resolve
import RdfDataset.Proofs.Dataset.Sound
import RdfDataset.Proofs.Document.Acceptance
import RdfDataset.Proofs.Document.Display
import RdfDataset.Proofs.Document.Faithful
import RdfDataset.Proofs.Document.Line
import RdfDataset.Proofs.Document.Reader
import RdfDataset.Proofs.Document.Refusal
import RdfDataset.Proofs.Document.Report
import RdfDataset.Proofs.Document.RoundTrip
import RdfDataset.Proofs.Document.Statement
import RdfDataset.Proofs.Document.Token
import RdfDataset.Proofs.Document.Turtle.Anonymous
import RdfDataset.Proofs.Document.Turtle.Block
import RdfDataset.Proofs.Document.Turtle.Group
import RdfDataset.Proofs.Document.Turtle.KeepApart
import RdfDataset.Proofs.Document.Turtle.Labels
import RdfDataset.Proofs.Document.Turtle.RoundTrip
import RdfDataset.Proofs.Document.Turtle.Run
import RdfDataset.Proofs.Document.Turtle.Statement
import RdfDataset.Proofs.Document.Turtle.Stop
import RdfDataset.Proofs.Document.Turtle.Suffix
import RdfDataset.Proofs.Document.Turtle.Term
import RdfDataset.Proofs.Document.Writer
import RdfDataset.Proofs.GraphIndex
import RdfDataset.Proofs.GraphIndex.Enumerate
import RdfDataset.Proofs.GraphIndex.Keys
import RdfDataset.Proofs.GraphIndex.Levels
import RdfDataset.Proofs.GraphIndex.Replay
import RdfDataset.Proofs.GraphIndex.Scan
import RdfDataset.Proofs.Interner
import RdfDataset.Proofs.Iri.Read
import RdfDataset.Proofs.PrefixMap
import RdfDataset.Proofs.Reasoning.Alike
import RdfDataset.Proofs.Reasoning.Basic
import RdfDataset.Proofs.Reasoning.Closure
import RdfDataset.Proofs.Reasoning.Derived
import RdfDataset.Proofs.Reasoning.Engine
import RdfDataset.Proofs.Reasoning.Join
import RdfDataset.Proofs.Reasoning.Premise
import RdfDataset.Proofs.Reasoning.Rdfs
import RdfDataset.Proofs.Reasoning.Termination
import RdfDataset.Proofs.Reasoning.Universe
import RdfDataset.Proofs.Result
import RdfDataset.Proofs.Rule.Compile
import RdfDataset.Proofs.Rule.Constants
import RdfDataset.Proofs.Rule.Represent
import RdfDataset.Proofs.Rule.Scope
import RdfDataset.Proofs.Rule.Stored
import RdfDataset.Proofs.Rule.Variant
import RdfDataset.Proofs.Term.Canonical
import RdfDataset.Proofs.Term.Codec
import RdfDataset.Proofs.Term.Components
import RdfDataset.Proofs.Term.Plain
import RdfDataset.Proofs.Term.Slice
import RdfDataset.Reasoning.Basic
import RdfDataset.Reasoning.Closure
import RdfDataset.Reasoning.Premise
import RdfDataset.Reasoning.Rdfs
import RdfDataset.Rule.Basic
import RdfDataset.Rule.Compile
import RdfDataset.Settings.Basic
import RdfDataset.Settings.File
import RdfDataset.Table
import RdfDataset.Term.Basic
import RdfDataset.Term.Display
import RdfDataset.Term.Id
import RdfDataset.Text.Escape
import RdfDataset.Text.FileName
import RdfDataset.Text.NameChar
import RdfDataset.Text.Printable
import RdfDataset.Text.Quoted
import RdfDataset.Text.Slice
import RdfDataset.Text.Split
import RdfDataset.Triple
import RdfDataset.Vocabulary
import RdfDataset.Yaml.Line
import RdfDataset.Yaml.Node
import RdfDataset.Yaml.Scalar
import RdfDataset.Yaml.Token
