import TypeInference.Action
import TypeInference.Assoc
import TypeInference.Check.Result
import TypeInference.Check.State
import TypeInference.Check.Walk
import TypeInference.Fault
import TypeInference.Obligation
import TypeInference.Origin
import TypeInference.Polymorphism
import TypeInference.Program.Basic
import TypeInference.Program.Binding
import TypeInference.Program.Numbering
import TypeInference.Program.Stamps
import TypeInference.Report.Basic
import TypeInference.Report.CharWidth
import TypeInference.Report.Layout
import TypeInference.Report.Margin
import TypeInference.Report.Section
import TypeInference.Report.Style
import TypeInference.Scheme
import TypeInference.ScopeTree
import TypeInference.Session
import TypeInference.Settings
import TypeInference.Solve
import TypeInference.SourceText
import TypeInference.Span
import TypeInference.Toml.Document
import TypeInference.Toml.Reader
import TypeInference.Toml.Scalar
import TypeInference.Toml.Table
import TypeInference.Toml.Text
import TypeInference.Toml.Value
import TypeInference.Trace
import TypeInference.TraitTable
import TypeInference.Ty.Basic
import TypeInference.Ty.Lemmas
import TypeInference.Ty.Text
import TypeInference.TypeError
import TypeInference.Unify
import TypeInference.VarTable.Basic
import TypeInference.VarTable.Resolve
import TypeInference.Proofs.Action
import TypeInference.Proofs.Check.Blame
import TypeInference.Proofs.Check.Faultless
import TypeInference.Proofs.Check.Nodes
import TypeInference.Proofs.Check.NodeTypes
import TypeInference.Proofs.Check.Obligations
import TypeInference.Proofs.Check.Returns
import TypeInference.Proofs.Check.Schemes
import TypeInference.Proofs.Generalization.Quantified
import TypeInference.Proofs.Polymorphism.Choices
import TypeInference.Proofs.Polymorphism.Agreement
import TypeInference.Proofs.Polymorphism.Intact
import TypeInference.Proofs.Polymorphism.Renaming
import TypeInference.Proofs.Program.Positions
import TypeInference.Proofs.Program.Restamp
import TypeInference.Proofs.Report.Header
import TypeInference.Proofs.Scheme
import TypeInference.Proofs.Scoping.Lookup
import TypeInference.Proofs.Scoping.Reads
import TypeInference.Proofs.Scoping.Resolution
import TypeInference.Proofs.Session
import TypeInference.Proofs.Solve.Casts
import TypeInference.Proofs.Solve.ErrorTypes
import TypeInference.Proofs.Solve.Order
import TypeInference.Proofs.Solve.Origins
import TypeInference.Proofs.Solve.Passes
import TypeInference.Proofs.Solve.Unresolved
import TypeInference.Proofs.Solve.Verdicts
import TypeInference.Proofs.Unify.Acyclic
import TypeInference.Proofs.Unify.Closed
import TypeInference.Proofs.Unify.MostGeneral
import TypeInference.Proofs.Unify.NormalForms
import TypeInference.Proofs.Unify.Occurrence
import TypeInference.Proofs.Unify.Recursion
import TypeInference.Proofs.Unify.Symmetric
import TypeInference.Proofs.Uses.Coherent
import TypeInference.Proofs.VarTable.Classes
import TypeInference.Proofs.VarTable.Resolve
import TypeInference.Proofs.VarTable.Twins
