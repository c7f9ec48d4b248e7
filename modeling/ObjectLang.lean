import ObjectLang.Compile
import ObjectLang.Proofs.Allocation
import ObjectLang.Proofs.Analysis.Absorption
import ObjectLang.Proofs.Analysis.Acceptance
import ObjectLang.Proofs.Analysis.Blurring
import ObjectLang.Proofs.Analysis.Chains
import ObjectLang.Proofs.Analysis.Cycles
import ObjectLang.Proofs.Analysis.Declarations
import ObjectLang.Proofs.Analysis.Distinct
import ObjectLang.Proofs.Analysis.Downstream
import ObjectLang.Proofs.Analysis.EarlySites
import ObjectLang.Proofs.Analysis.Expressions
import ObjectLang.Proofs.Analysis.FollowBodies
import ObjectLang.Proofs.Analysis.FollowPrograms
import ObjectLang.Proofs.Analysis.Follows
import ObjectLang.Proofs.Analysis.Frames
import ObjectLang.Proofs.Analysis.Functions
import ObjectLang.Proofs.Analysis.Hierarchy
import ObjectLang.Proofs.Analysis.Keeping
import ObjectLang.Proofs.Analysis.Members
import ObjectLang.Proofs.Analysis.Mentions
import ObjectLang.Proofs.Analysis.Overriding
import ObjectLang.Proofs.Analysis.ProgramSites
import ObjectLang.Proofs.Analysis.Progress
import ObjectLang.Proofs.Analysis.Reached
import ObjectLang.Proofs.Analysis.Recorded
import ObjectLang.Proofs.Analysis.Renaming
import ObjectLang.Proofs.Analysis.RenamingPrograms
import ObjectLang.Proofs.Analysis.Reordering
import ObjectLang.Proofs.Analysis.ReorderingPrograms
import ObjectLang.Proofs.Analysis.Requests
import ObjectLang.Proofs.Analysis.Returns
import ObjectLang.Proofs.Analysis.Scoping
import ObjectLang.Proofs.Analysis.Settled
import ObjectLang.Proofs.Analysis.Sites
import ObjectLang.Proofs.Analysis.Statements
import ObjectLang.Proofs.Analysis.States
import ObjectLang.Proofs.Analysis.Subtyping
import ObjectLang.Proofs.Analysis.Tables
import ObjectLang.Proofs.Analysis.Verdict
import ObjectLang.Proofs.Analysis.VerdictSites
import ObjectLang.Proofs.Analysis.Visibility
import ObjectLang.Proofs.Analysis.Visits
import ObjectLang.Proofs.ArrayTypes
import ObjectLang.Proofs.Construction
import ObjectLang.Proofs.Division
import ObjectLang.Proofs.IR.Alike
import ObjectLang.Proofs.IR.Comments
import ObjectLang.Proofs.IR.Courses
import ObjectLang.Proofs.IR.Discipline
import ObjectLang.Proofs.IR.Growth
import ObjectLang.Proofs.IR.Types
import ObjectLang.Proofs.IR.Verified
import ObjectLang.Proofs.LargeObjects
import ObjectLang.Proofs.Layout.Agreement
import ObjectLang.Proofs.Layout.Building
import ObjectLang.Proofs.Layout.Constructors
import ObjectLang.Proofs.Layout.Laid
import ObjectLang.Proofs.Layout.Routines
import ObjectLang.Proofs.Layout.Settled
import ObjectLang.Proofs.Layout.Slots
import ObjectLang.Proofs.Layout.Standing
import ObjectLang.Proofs.Layout.Types
import ObjectLang.Proofs.Lowering.Addresses
import ObjectLang.Proofs.Lowering.Alike
import ObjectLang.Proofs.Lowering.Allocators
import ObjectLang.Proofs.Lowering.Anywhere
import ObjectLang.Proofs.Lowering.Bodies
import ObjectLang.Proofs.Lowering.Calls
import ObjectLang.Proofs.Lowering.Checks
import ObjectLang.Proofs.Lowering.Comments
import ObjectLang.Proofs.Lowering.Compiled
import ObjectLang.Proofs.Lowering.Courses
import ObjectLang.Proofs.Lowering.DeadCode
import ObjectLang.Proofs.Lowering.Expressions
import ObjectLang.Proofs.Lowering.Filling
import ObjectLang.Proofs.Lowering.Fragments
import ObjectLang.Proofs.Lowering.Known
import ObjectLang.Proofs.Lowering.Locations
import ObjectLang.Proofs.Lowering.Meaning
import ObjectLang.Proofs.Lowering.Objects
import ObjectLang.Proofs.Lowering.OpenBlocks
import ObjectLang.Proofs.Lowering.Operators
import ObjectLang.Proofs.Lowering.Paired
import ObjectLang.Proofs.Lowering.Parallel
import ObjectLang.Proofs.Lowering.Programs
import ObjectLang.Proofs.Lowering.Quotients
import ObjectLang.Proofs.Lowering.Requests
import ObjectLang.Proofs.Lowering.Statements
import ObjectLang.Proofs.Lowering.Twins
import ObjectLang.Proofs.Lowering.Variables
import ObjectLang.Proofs.Lowering.Worlds
import ObjectLang.Proofs.Machine.Activations
import ObjectLang.Proofs.Machine.Alike
import ObjectLang.Proofs.Machine.Builds
import ObjectLang.Proofs.Machine.Comments
import ObjectLang.Proofs.Machine.Entry
import ObjectLang.Proofs.Machine.Limits
import ObjectLang.Proofs.Machine.Memory
import ObjectLang.Proofs.Machine.Moves
import ObjectLang.Proofs.Machine.Offsets
import ObjectLang.Proofs.Machine.Pointers
import ObjectLang.Proofs.Machine.Shape
import ObjectLang.Proofs.Machine.Steps
import ObjectLang.Proofs.Names
import ObjectLang.Proofs.Parsing.Beside
import ObjectLang.Proofs.Parsing.BesidePrograms
import ObjectLang.Proofs.Parsing.Completeness
import ObjectLang.Proofs.Parsing.Extent
import ObjectLang.Proofs.Parsing.Faults
import ObjectLang.Proofs.Parsing.Grammar
import ObjectLang.Proofs.Parsing.Identities
import ObjectLang.Proofs.Parsing.Literals
import ObjectLang.Proofs.Parsing.Marks
import ObjectLang.Proofs.Parsing.Nesting
import ObjectLang.Proofs.Parsing.Places
import ObjectLang.Proofs.Parsing.Placing
import ObjectLang.Proofs.Parsing.Reading
import ObjectLang.Proofs.Parsing.Respacing
import ObjectLang.Proofs.Parsing.Soundness
import ObjectLang.Proofs.Preservation
import ObjectLang.Proofs.Renaming
import ObjectLang.Proofs.Reordering
import ObjectLang.Proofs.Semantics.Evaluation
import ObjectLang.Proofs.Semantics.Fields
import ObjectLang.Proofs.Semantics.Halts
import ObjectLang.Proofs.Simulation.Activation
import ObjectLang.Proofs.Simulation.Allocators
import ObjectLang.Proofs.Simulation.Calls
import ObjectLang.Proofs.Simulation.Code
import ObjectLang.Proofs.Simulation.Constructors
import ObjectLang.Proofs.Simulation.Heap
import ObjectLang.Proofs.Simulation.Programs
import ObjectLang.Proofs.Token.Gaps
import ObjectLang.Proofs.Token.Lexemes
import ObjectLang.Proofs.Token.Tiling
import ObjectLang.Proofs.Tree.Relabel
import ObjectLang.Proofs.Tree.Renaming
import ObjectLang.Proofs.Typing.Counterpart
import ObjectLang.Proofs.Typing.Denotation
import ObjectLang.Proofs.Typing.Lineage
import ObjectLang.Proofs.Typing.Outline
import ObjectLang.Proofs.Typing.Written
