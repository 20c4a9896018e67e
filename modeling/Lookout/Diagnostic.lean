/-
# What a report looks like

A report is one line on the event and the thread, followed by a stack trace.
The line that an instrumented method prints is put together from the same
pieces at run time.
-/

import Lookout.Target.Basic
import Lookout.Bytes

namespace Lookout

/-- A call on the stack of the reporting thread. -/
structure StackFrame where
  /-- In dotted form. -/
  className : String
  method : String
  file : Option String
  line : Option Nat
  deriving DecidableEq

namespace StackFrame

/-- The call of this method, with the class in either spelling. -/
def ofCall (className method : String) (file : Option String) (line : Option Nat) : StackFrame :=
  ⟨Text.dotted className, method, file, line⟩

/-- Where the call is in the sources. A line without a file tells nothing. -/
def location (frame : StackFrame) : String :=
  match frame.file, frame.line with
  | some file, some line => file ++ ":" ++ toString line
  | some file, none => file
  | none, _ => "Unknown Source"

/-- The frame as one line of a stack trace. -/
def text (frame : StackFrame) : String :=
  "\tat " ++ frame.className ++ "." ++ frame.method ++ "(" ++ frame.location ++ ")"

end StackFrame

namespace Diagnostic

/-- What stands between the event and the name of the thread. -/
def threadNameLabel : String := ". Current thread name: "

/-- What stands between the parts of a command. -/
def argumentSeparator : String := ", "

/-- The first line of a stack trace. -/
def stackTraceHeader : String := "java.lang.Exception: Stack trace"

/-- What happened. The command of a launched process follows directly. -/
def eventDescription : TargetKind → String
  | .halt => "Shutdown agent detected Shutdown.halt() call"
  | .processStart =>
    "Agent detected process creation by ProcessBuilder.start() method. " ++
      "Commands passed to the builder: "

/-- The command as it is shown. Only the launch of a process has one. -/
def commandText : TargetKind → Option (List String) → String
  | .processStart, some arguments => argumentSeparator.intercalate arguments
  | _, _ => ""

/-- The line on the event and the thread. -/
def eventLine (kind : TargetKind) (threadName : String) (command : Option (List String)) :
    String :=
  eventDescription kind ++ commandText kind command ++ threadNameLabel ++ threadName

/-- The text as a line of its own. -/
def asLine (text : String) : String := text ++ "\n"

/-- The stack trace, innermost call first. -/
def stackTrace (stack : List StackFrame) : String :=
  String.join (asLine stackTraceHeader :: stack.map fun frame => asLine frame.text)

/-- The whole report. -/
def render (kind : TargetKind) (threadName : String) (command : Option (List String))
    (stack : List StackFrame) : String :=
  asLine (eventLine kind threadName command) ++ stackTrace stack

end Diagnostic

/-- Something that a report can be written to. It takes `chunk` bytes at a time,
until it has taken `capacity` bytes in all; from then on every write fails. -/
structure LimitedSink where
  chunk : Nat
  capacity : Nat
  received : Bytes
  deriving DecidableEq

namespace LimitedSink

/-- Write all of the bytes, or as many as go in. A sink that takes nothing at a
time never gets anything. -/
def write (sink : LimitedSink) (bytes : Bytes) : LimitedSink :=
  if sink.chunk = 0 then sink
  else
    { sink with received := sink.received ++ bytes.take (sink.capacity - sink.received.length) }

end LimitedSink

namespace Diagnostic

/-- Write a report. That not all of it went in is nobody's concern: a report must
never change the outcome of what it reports. -/
def emit (sink : LimitedSink) (kind : TargetKind) (threadName : String)
    (command : Option (List String)) (stack : List StackFrame) : LimitedSink :=
  sink.write (render kind threadName command stack).toUTF8.toList

end Diagnostic

end Lookout
