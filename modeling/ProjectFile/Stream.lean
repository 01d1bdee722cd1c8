import ProjectFile.Text.Bytes

/-! # Streams

A source gives bytes and may fail after them; a sink takes bytes and may have room for a limited
number of them.  Texts cross both in their UTF-8 form. -/

namespace ProjectFile

/-- Bytes to read. -/
structure Source where
  bytes : ByteArray
  /-- The reason for which the source fails after its bytes, if it does. -/
  failure? : Option String := none

/-- Why no text comes from a source. -/
inductive SourceFault where
  | failed (reason : String)
  | notText
deriving DecidableEq, Repr

/-- The text of a fault. -/
def SourceFault.message : SourceFault → String
  | .failed reason => reason
  | .notText => "stream did not contain valid UTF-8"

/-- The text of a source.  A source that fails gives none, whatever its bytes are. -/
def Source.text (s : Source) : Except SourceFault String :=
  match s.failure? with
  | some reason => .error (.failed reason)
  | none =>
    match String.fromUTF8? s.bytes with
    | some text => .ok text
    | none => .error .notText

/-- The source of a text. -/
def Source.ofText (text : String) : Source where
  bytes := text.toUTF8

/-- Room to write to. -/
structure Sink where
  /-- How many bytes there is room for, if that is limited. -/
  room? : Option Nat := none
  /-- The reason for which the sink fails once all is written, if it does. -/
  failure? : Option String := none

/-- Why a text cannot be written. -/
inductive SinkFault where
  | full
  | failed (reason : String)
deriving DecidableEq, Repr

/-- The text of a fault. -/
def SinkFault.message : SinkFault → String
  | .full => "failed to write whole buffer"
  | .failed reason => reason

/-- The bytes that a sink takes of some, and the fault if it does not take them all or fails
    after them. -/
def Sink.take (s : Sink) (bytes : ByteArray) : ByteArray × Option SinkFault :=
  match s.room? with
  | some room =>
    if room < bytes.size then (bytes.extract 0 room, some .full)
    else (bytes, s.failure?.map .failed)
  | none => (bytes, s.failure?.map .failed)

end ProjectFile
