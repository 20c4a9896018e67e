import Lookout.Host.Attachment
import Lookout.Proofs.ClassFile.RoundTrip
import Lookout.Proofs.ConstantPool.RoundTrip
import Lookout.Proofs.Fragment.StackDepth
import Lookout.Proofs.Host.Run
import Lookout.Proofs.Instruction.Layout
import Lookout.Proofs.Instrumentation.Independence
import Lookout.Proofs.Instrumentation.Output
import Lookout.Proofs.Instrumentation.Readable
import Lookout.Proofs.MethodCode.Branches
import Lookout.Proofs.MethodCode.Composition
import Lookout.Rehearsal
import Lookout.Sample
import Lookout.Proofs.ConstantPool.AddOrFind
import Lookout.Proofs.ConstantPool.Numbering
import Lookout.Proofs.Instrumentation.ReportCalls
import Lookout.Proofs.Instrumentation.Repetition
import Lookout.Proofs.MethodCode.Anchors
import Lookout.Proofs.Instrumentation.Receiver
import Lookout.Proofs.Descriptor.RoundTrip
import Lookout.Proofs.Descriptor.Scan
import Lookout.Proofs.Text.Canonical
import Lookout.Proofs.Instruction.Switch
import Lookout.Proofs.Instruction.Walk
import Lookout.Proofs.Fragment.InterfaceCount
import Lookout.Proofs.ClassFile.Building
import Lookout.Proofs.ClassFile.Prefix
import Lookout.Proofs.ClassFile.Recoding
