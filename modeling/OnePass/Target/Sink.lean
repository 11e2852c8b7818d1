import OnePass.Target.Render
import OnePass.Text.Bytes

/-!
# Sinks of bounded capacity

A sink keeps the bytes that it is given until it is full. What it does then depends on the sink; a sink may
also fail when everything has been written.

* `Sink.write`, `Sink.flush` — one write to a sink, and the end of writing;
* `Sink.deliver` — what a sink keeps of a listing, and how it ends.
-/

namespace OnePass

/-- How a sink fails. -/
inductive SinkFailure where
  | full
  | silent
  | flushing
deriving DecidableEq, Repr, Inhabited

/-- A place to write to. -/
structure Sink where
  limit : Option Nat := none
  failure : SinkFailure := .full
deriving DecidableEq, Repr, Inhabited

/-- What a sink has kept, and how writing to it ended. -/
structure Delivery where
  kept : ByteArray
  result : Except Diagnostic Unit

def Delivery.text (delivery : Delivery) : String := Bytes.lossyText delivery.kept

namespace Sink

def overflow (sink : Sink) : Fault :=
  match sink.failure with
  | .silent => .output "failed to write whole buffer"
  | .full | .flushing => .output "sink full"

def write (sink : Sink) (kept bytes : ByteArray) : Delivery :=
  let room := sink.limit.elim bytes.size (· - kept.size)
  if room < bytes.size then
    { kept := kept ++ bytes.extract 0 room, result := .error { fault := sink.overflow } }
  else { kept := kept ++ bytes, result := .ok () }

def writeAll (sink : Sink) (kept : ByteArray) : List ByteArray → Delivery
  | [] => { kept, result := .ok () }
  | piece :: pieces =>
      let written := sink.write kept piece
      match written.result with
      | .ok () => writeAll sink written.kept pieces
      | .error _ => written

def flush (sink : Sink) (written : Delivery) : Delivery :=
  match written.result with
  | .ok () =>
      if sink.failure = .flushing then
        { written with result := .error { fault := .output "flush failed" } }
      else written
  | .error _ => written

def finish (sink : Sink) (written : Delivery) (fault : Option Diagnostic) : Delivery :=
  match written.result, fault with
  | .ok (), some diagnostic => { written with result := .error diagnostic }
  | _, _ => sink.flush written

def deliver (sink : Sink) (listing : Target.Listing) : Delivery :=
  sink.finish (sink.writeAll .empty (listing.lines.map fun line => (line.text ++ "\n").toUTF8)) listing.fault

end Sink

end OnePass
