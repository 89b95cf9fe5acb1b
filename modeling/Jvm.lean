import Jvm.Assembler
import Jvm.Decryption.Pass
import Jvm.Proofs.Decryption.Removable
import Jvm.Proofs.Machine.Agreement
import Jvm.Proofs.Decryption.Called
import Jvm.Proofs.Machine.Budget
import Jvm.Proofs.Machine.CallStack
import Jvm.Proofs.Machine.Failures
import Jvm.Proofs.Machine.Handles
import Jvm.Proofs.Machine.Wider
import Jvm.Proofs.Machine.Initialization
import Jvm.Proofs.Machine.InstanceFields
import Jvm.Proofs.Machine.Lifecycle
import Jvm.Proofs.Machine.StaticFields
import Jvm.Proofs.Flow.Typability
import Jvm.Proofs.Archive.Layout
import Jvm.Proofs.Machine.SparingLibrary
import Jvm.Proofs.Machine.Reflection
import Jvm.Proofs.Archive.Access
import Jvm.Proofs.Flow.Rounds
import Jvm.Proofs.Machine.Ancestors
import Jvm.Proofs.Machine.Assignability
import Jvm.Proofs.Assembly.Switches
import Jvm.Proofs.Machine.StackLimits
import Jvm.Proofs.Machine.WordSequences
import Jvm.Proofs.Machine.LocalHistory
import Jvm.Proofs.Machine.LocalFrames
import Jvm.Proofs.Machine.NestedArrays
import Jvm.Proofs.Text.Reversal
import Jvm.Proofs.Text.Charsets
import Jvm.Proofs.Machine.ArrayCopy
import Jvm.Proofs.Machine.ReadInto
import Jvm.Proofs.Machine.StreamReads
import Jvm.Proofs.Machine.BuilderTexts
import Jvm.Proofs.Text.Numerals
import Jvm.Proofs.Machine.ClassObjects
import Jvm.Proofs.Machine.ReflectiveView
import Jvm.Proofs.Decryption.Recording
import Jvm.Proofs.Flow.CallArguments
import Jvm.Proofs.Machine.Calculations
import Jvm.Proofs.Text.Splitting
import Jvm.Proofs.Flow.Provenance
