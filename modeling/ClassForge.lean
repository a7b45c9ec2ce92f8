import ClassForge.Machine.Exec
import ClassForge.Proofs.Format.Writing
import ClassForge.Proofs.Pool.Interning
import ClassForge.Proxy.Generate
import ClassForge.Proofs.Format.AttributeWriting
import ClassForge.Proofs.Format.RoundTrip
import ClassForge.Proofs.Format.Links
import ClassForge.Proofs.Format.Locality
import ClassForge.Proofs.Format.NamePlaces
import ClassForge.Proofs.Format.Respelling
import ClassForge.Proofs.Code.DepthSearch
import ClassForge.Proofs.Code.SearchRun
import ClassForge.Proofs.Code.StackDepth
import ClassForge.Proofs.Code.Reading
import ClassForge.Proofs.Code.Placing
import ClassForge.Proofs.Code.Emission
import ClassForge.Proofs.Code.Segments
import ClassForge.Proofs.Machine.Faults
import ClassForge.Proofs.Machine.Keeping
import ClassForge.Proofs.Machine.Work
import ClassForge.Proofs.Machine.Stepping
import ClassForge.Proofs.Machine.Turns
import ClassForge.Proofs.Machine.Execution
import ClassForge.Proofs.Discipline
import ClassForge.Proofs.Text.ModifiedUtf8
import ClassForge.Proofs.Text.Groups
import ClassForge.Proofs.Pool.Growing
import ClassForge.Proofs.Pool.Alike
import ClassForge.Proofs.Pool.Changes
import ClassForge.Proofs.Format.AlikeWriting
import ClassForge.Proofs.Code.Blindness
import ClassForge.Proofs.Code.Framing
import ClassForge.Proofs.Code.Assembling
import ClassForge.Proofs.Code.Listings
import ClassForge.Proofs.Code.Attached
import ClassForge.Proofs.Code.DebugTables
import ClassForge.Proofs.Format.Spellable
import ClassForge.Proofs.ClassBuilder.Building
import ClassForge.Proofs.ClassBuilder.Histories
import ClassForge.Proofs.ClassBuilder.Blindness
import ClassForge.Proofs.ClassBuilder.Undoing
import ClassForge.Proofs.ClassBuilder.Framing
import ClassForge.Proofs.Descriptor.Decoding
import ClassForge.Proofs.Descriptor.Language
import ClassForge.Proofs.Format.Rereading
import ClassForge.Proofs.Code.PlainSteps
import ClassForge.Proofs.Machine.Operands
import ClassForge.Proofs.Machine.Objects
import ClassForge.Proofs.Machine.Calls
import ClassForge.Proofs.Machine.Handlers
import ClassForge.Proofs.Proxy.Handling
import ClassForge.Proofs.Proxy.Generated
import ClassForge.Proofs.ClassBuilder.Running
import ClassForge.Proofs.Machine.Loading
import ClassForge.Proofs.Proxy.Loaded
import ClassForge.Proofs.Proxy.Handled
import ClassForge.Proofs.Descriptor.Dividing
import ClassForge.Proofs.Proxy.Storing
import ClassForge.Proofs.Proxy.Supplying
import ClassForge.Proofs.Proxy.Constructors
import ClassForge.Proofs.Proxy.Delegating
import ClassForge.Proofs.Proxy.Fields
import ClassForge.Proofs.Proxy.Created
import ClassForge.Proofs.Machine.Entering
import ClassForge.Proofs.Machine.StackRoom
import ClassForge.Proofs.SlotCounts
import ClassForge.Proofs.Pool.Lasting
import ClassForge.Proofs.Machine.Hierarchy
import ClassForge.Proofs.Machine.PairedLocals
import ClassForge.Proofs.Code.LocalSlots
import ClassForge.Proofs.Pool.Backward
import ClassForge.Proofs.Pool.Cuts
import ClassForge.Proofs.Format.Pieces
import ClassForge.Proofs.Machine.Subtypes
import ClassForge.Proofs.Machine.Constants
import ClassForge.Proofs.Machine.Parameters
import ClassForge.Proofs.Proxy.SuperCalls
import ClassForge.Proofs.Proxy.Coherence
import ClassForge.Proofs.Proxy.Refusing
import ClassForge.Proofs.Proxy.Assignable
import ClassForge.Proofs.Format.BrokenLinks
import ClassForge.Proofs.Machine.MethodLookup
import ClassForge.Proofs.Machine.Unboxing
import ClassForge.Proofs.Machine.Builders
import ClassForge.Proofs.Machine.FieldValues
import ClassForge.Proofs.Machine.Blindness
import ClassForge.Proofs.Proxy.Blindness
import ClassForge.Proofs.Descriptor.Remembering
import ClassForge.Proofs.Sharing
