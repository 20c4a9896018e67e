/-
# The code that reports

A prologue prints one line to the error stream and has the thread print its
stack. The line is put together from the pieces that `Lookout.Diagnostic` puts
it together from. When a process is launched, the command is read from a field
of the object, so the class has to declare that field.
-/

import Lookout.ClassFile.Lookup
import Lookout.Diagnostic
import Lookout.Fragment.Assembly
import Lookout.Instrumentation.Error

namespace Lookout

namespace DiagnosticPrologue

/-- The error stream. -/
def errorStream : MemberReference := ⟨"java/lang/System", "err", "Ljava/io/PrintStream;"⟩

/-- Print a line. -/
def println : MemberReference := ⟨"java/io/PrintStream", "println", "(Ljava/lang/String;)V"⟩

/-- Append one string to another. -/
def concat : MemberReference :=
  ⟨"java/lang/String", "concat", "(Ljava/lang/String;)Ljava/lang/String;"⟩

/-- Join the members of a list with a separator. -/
def join : MemberReference :=
  ⟨"java/lang/String", "join",
    "(Ljava/lang/CharSequence;Ljava/lang/Iterable;)Ljava/lang/String;"⟩

/-- The running thread. -/
def currentThread : MemberReference :=
  ⟨"java/lang/Thread", "currentThread", "()Ljava/lang/Thread;"⟩

/-- The name of a thread. -/
def getName : MemberReference := ⟨"java/lang/Thread", "getName", "()Ljava/lang/String;"⟩

/-- Print the stack of the running thread. -/
def dumpStack : MemberReference := ⟨"java/lang/Thread", "dumpStack", "()V"⟩

/-- The name of the field that holds a command and its arguments. -/
def commandFieldName : String := "command"

/-- The descriptor of that field. -/
def commandFieldDescriptor : String := "Ljava/util/List;"

/-- That field, as declared by the class with this name. -/
def commandField (owner : String) : MemberReference :=
  ⟨owner, commandFieldName, commandFieldDescriptor⟩

/-- Push the name of the running thread. -/
def threadName : Assembly Unit := do
  Assembly.invokestatic currentThread
  Assembly.invokevirtual getName

/-- Print the line on the stack, and then the call stack. -/
def printAndDump : Assembly Unit := do
  Assembly.invokevirtual println
  Assembly.invokestatic dumpStack

/-- Report that the process ends. -/
def haltCode : Assembly Unit := do
  Assembly.getstatic errorStream
  Assembly.ldc (Diagnostic.eventDescription .halt ++ Diagnostic.threadNameLabel)
  threadName
  Assembly.invokevirtual concat
  printAndDump

/-- Report that a process is launched by an object of the class with this name. -/
def processStartCode (owner : String) : Assembly Unit := do
  Assembly.getstatic errorStream
  Assembly.ldc (Diagnostic.eventDescription .processStart)
  Assembly.ldc Diagnostic.argumentSeparator
  Assembly.aload 0
  Assembly.getfield (commandField owner)
  Assembly.invokestatic join
  Assembly.invokevirtual concat
  Assembly.ldc Diagnostic.threadNameLabel
  Assembly.invokevirtual concat
  threadName
  Assembly.invokevirtual concat
  printAndDump

/-- The code that reports from a class with this name. -/
def code : TargetKind → String → Assembly Unit
  | .halt, _ => haltCode
  | .processStart, owner => processStartCode owner

/-- How reports call a class whose name cannot be resolved. -/
def unnamedClass : String := "<unnamed>"

/-- Whether the class lacks the field that this kind of report reads. -/
def lacksCommandField (kind : TargetKind) (file : ClassFile) : Bool :=
  kind == .processStart &&
    (file.findField? commandFieldName commandFieldDescriptor).isNone

/-- Assemble the code that reports from a class with this name. The pool comes
back with what was interned, even if assembly fails. -/
def assemble (kind : TargetKind) (owner : String) (pool : ConstantPool) :
    Except ClassFileError Fragment × ConstantPool :=
  match code kind owner (Assembler.start pool) with
  | (.ok (), assembler) => (assembler.finish, assembler.pool)
  | (.error fault, assembler) => (.error fault, assembler.pool)

/-- Build the prologue for a method of a class. All that changes in the class is
its pool. -/
def build (kind : TargetKind) (method : String) (file : ClassFile) :
    Except AgentError Fragment × ClassFile :=
  match file.name with
  | .error fault => (.error (.compilation unnamedClass method (.classData fault)), file)
  | .ok owner =>
    if lacksCommandField kind file then
      (.error (.compilation owner method
        (.missingField commandFieldName commandFieldDescriptor)), file)
    else
      let (fragment, pool) := assemble kind owner file.pool
      (fragment.mapError fun fault => .compilation owner method (.classData fault),
        { file with pool })

end DiagnosticPrologue

end Lookout
