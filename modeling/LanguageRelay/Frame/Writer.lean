import LanguageRelay.Text.Bytes
namespace LanguageRelay.Frame
open Text

def header (length : Nat) : Bytes := utf8 s!"Content-Length: {length}\r\n\r\n"

def encode (body : String) : Bytes := header (byteLength body) ++ utf8 body

inductive WriteError where
  | header
  | body
  | flush
  | close
deriving DecidableEq, Repr

def WriteError.message : WriteError → String
  | .header => "writing frame header"
  | .body => "writing frame body"
  | .flush => "flushing frame"
  | .close => "closing writer"

-- Where frames are written: it takes `step + 1` bytes at a time, `room` bytes in all if that is
-- set, and may refuse to flush or to close.
structure Sink where
  step : Nat
  room : Option Nat
  flushes : Bool
  closes : Bool
  accepted : Bytes
deriving Repr

def Sink.portion (sink : Sink) (length : Nat) : Nat :=
  match sink.room with
  | none => min (sink.step + 1) length
  | some room => min (min (sink.step + 1) length) room

def Sink.take (sink : Sink) (count : Nat) (bytes : Bytes) : Sink :=
  { sink with room := sink.room.map (· - count), accepted := sink.accepted ++ bytes.take count }

def Sink.writeAll (sink : Sink) (bytes : Bytes) : Bool × Sink :=
  if _empty : bytes = [] then (true, sink)
  else if _full : sink.portion bytes.length = 0 then (false, sink)
  else (sink.take (sink.portion bytes.length) bytes).writeAll
    (bytes.drop (sink.portion bytes.length))
termination_by bytes.length
decreasing_by
  have : 0 < bytes.length := List.length_pos_iff.2 _empty
  simp only [List.length_drop]; omega

def Sink.writeFrame (sink : Sink) (body : String) : Except WriteError Unit × Sink :=
  match sink.writeAll (header (byteLength body)) with
  | (false, sink) => (.error .header, sink)
  | (true, sink) =>
    match sink.writeAll (utf8 body) with
    | (false, sink) => (.error .body, sink)
    | (true, sink) => (if sink.flushes then .ok () else .error .flush, sink)

def Sink.writeFrames : Sink → List String → List (Except WriteError Unit) × Sink
  | sink, [] => ([], sink)
  | sink, body :: rest =>
    let (result, sink) := sink.writeFrame body
    let (results, sink) := writeFrames sink rest
    (result :: results, sink)

def Sink.close (sink : Sink) : Except WriteError Unit :=
  if sink.closes then .ok () else .error .close

end LanguageRelay.Frame
