import AerugoCache.Command
import AerugoCache.RespParser

/-!
# The client

`RespClient` of `client.rs`: it writes one array of bulks and reads one frame.
-/

namespace AerugoCache.Client

open AerugoCache.ByteText AerugoCache.Protocol AerugoCache.Commands

inductive ClientError where
  | io (error : ReadError)
  | connectionClosed
  | server (text : String)
deriving DecidableEq, Repr

def requestFrame (args : List String) : Frame := .array (args.map bulk)

/-- The part of `command` after the request is written, on the bytes the server
    has sent. -/
def receive (heap : Allocator) (stream : Bytes) : Except ClientError Frame :=
  match readFrame heap stream with
  | .error error => .error (.io error)
  | .ok (none, _) => .error .connectionClosed
  | .ok (some (.error text), _) => .error (.server text)
  | .ok (some frame, _) => .ok frame

/-- `RespClient::command` against a server that answers the request bytes with
    `answer`. -/
def command (heap : Allocator) (answer : Bytes → Bytes) (args : List String) :
    Except ClientError Frame :=
  receive heap (answer (writeFrame (requestFrame args)))

/-! ### Several commands on a connection -/

/-- A connection: the bytes that the server sends on it from here on, and those that were
    written to it. -/
structure RespClient where
  reader : Bytes
  writer : Bytes

/-- A connection that was just accepted, on which the server is to send `answers`. -/
def RespClient.connect (answers : Bytes) : RespClient := ⟨answers, []⟩

/-- `RespClient::command` with what it leaves of the connection. -/
def RespClient.command (heap : Allocator) (args : List String) (client : RespClient) :
    Except ClientError Frame × RespClient :=
  let writer := client.writer ++ writeFrame (requestFrame args)
  match readFrame heap client.reader with
  | .error error => (.error (.io error), { client with writer })
  | .ok (none, reader) => (.error .connectionClosed, ⟨reader, writer⟩)
  | .ok (some (.error text), reader) => (.error (.server text), ⟨reader, writer⟩)
  | .ok (some frame, reader) => (.ok frame, ⟨reader, writer⟩)

end AerugoCache.Client
