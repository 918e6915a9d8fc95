import ClassForge.Assembly.Block
import ClassForge.Assembly.Command
import ClassForge.Assembly.Edge
import ClassForge.Assembly.Instruction
import ClassForge.Assembly.Layout
import ClassForge.Assembly.MethodDraft
import ClassForge.Assembly.Operation
import ClassForge.Assembly.Patch
import ClassForge.Attribute
import ClassForge.Bytes.BigEndian
import ClassForge.Bytes.Fault
import ClassForge.Bytes.Reader
import ClassForge.ClassDraft
import ClassForge.ClassFile
import ClassForge.Constant.Basic
import ClassForge.Constant.Format
import ClassForge.Decimal.Notation
import ClassForge.Decimal.Shortest
import ClassForge.Demo
import ClassForge.Descriptor.Basic
import ClassForge.Descriptor.Parser
import ClassForge.Editing
import ClassForge.Error
import ClassForge.Flags
import ClassForge.Main
import ClassForge.Outline
import ClassForge.Pool
import ClassForge.Report
import ClassForge.Slots
import ClassForge.StackMap
import ClassForge.Text.ModifiedUtf8
import ClassForge.Text.Printable
import ClassForge.Text.Quoted
import ClassForge.Text.Utf16
import ClassForge.Verification.Frame
import ClassForge.Verification.VType
import ClassForge.Version
import ClassForge.Proofs.SlotEdits
import ClassForge.Proofs.Assignability
import ClassForge.Proofs.Bytes
import ClassForge.Proofs.Constants
import ClassForge.Proofs.ClassFile
import ClassForge.Proofs.Truncation
import ClassForge.Proofs.AttributeBody
import ClassForge.Proofs.Assembly.Listing
import ClassForge.Proofs.Assembly.Walk
import ClassForge.Proofs.Assembly.Emission
import ClassForge.Proofs.Assembly.Layout
import ClassForge.Proofs.Assembly.Disassembly
import ClassForge.Proofs.Assembly.StackMap
import ClassForge.Proofs.Pool
import ClassForge.Proofs.Descriptor
import ClassForge.Proofs.Resolution
import ClassForge.Proofs.Frame
import ClassForge.Proofs.Assembly.Entry
import ClassForge.Proofs.Assembly.Calls
import ClassForge.Proofs.Assembly.Spelling
import ClassForge.Proofs.Assembly.Typing
import ClassForge.Proofs.Assembly.Depth
import ClassForge.Proofs.Assembly.Paths
import ClassForge.Proofs.Assembly.Execution
import ClassForge.Proofs.Assembly.Renaming
import ClassForge.Proofs.Assembly.Locals
import ClassForge.Proofs.Assembly.Maxima
import ClassForge.Proofs.Assembly.Decoding
import ClassForge.Proofs.Editing
import ClassForge.Proofs.Assembly.Tables
import ClassForge.Proofs.Assembly.Acceptance
import ClassForge.Proofs.Closure
import ClassForge.Proofs.Construction
import ClassForge.Proofs.WrittenClass
