import AerugoCache.Command
import AerugoCache.RespParser

/-!
# The append-only file

`persistence/aof.rs`.  The log is the sequence of bytes in the file.  An append
that fails part of the way leaves some prefix of its record behind.
-/

namespace AerugoCache.Persistence

open AerugoCache.ByteText AerugoCache.Protocol AerugoCache.Storage AerugoCache.Commands

/-- How an append ends: every byte written and flushed, or an error after `kept`
    bytes of the record. -/
inductive AppendOutcome where
  | written
  | failed (kept : Nat)
deriving DecidableEq, Repr

/-- `Aof::open`: the file is created where it is missing, and what it holds is kept. -/
def «open» (file : Option Bytes) : Bytes := file.getD []

def append (log : Bytes) (frame : Frame) : AppendOutcome → Bool × Bytes
  | .written => (true, log ++ writeFrame frame)
  | .failed kept => (false, log ++ (writeFrame frame).take kept)

/-- One iteration of the loop of `replay`: a command that fails is skipped. -/
def replayFrame (frame : Frame) (env : Env) (count : Nat) (store : MemoryStore) :
    Nat × MemoryStore :=
  match Command.fromFrame frame with
  | .ok command =>
      match command.execute env store with
      | (.ok _, store) => (count + 1, store)
      | (.error _, store) => (count, store)
  | .error _ => (count, store)

/-- The loop of `replay`, `envs` being what its successive iterations read. -/
def replayLoop (heap : Allocator) (envs : Nat → Env) :
    Nat → Nat → Bytes → Nat → MemoryStore → Except ReadError Nat × MemoryStore
  | 0, _, _, _, store => (.error .outOfFuel, store)
  | fuel + 1, round, stream, count, store =>
      match readFrame heap stream with
      | .error error => (.error error, store)
      | .ok (none, _) => (.ok count, store)
      | .ok (some frame, rest) =>
          let (count, store) := replayFrame frame (envs round) count store
          replayLoop heap envs fuel (round + 1) rest count store

/-- `Aof::replay` on the bytes of the file, or on no file at all.  Every frame
    takes a byte, so the length of the file bounds the iterations. -/
def replay (heap : Allocator) (envs : Nat → Env) (file : Option Bytes) (store : MemoryStore) :
    Except ReadError Nat × MemoryStore :=
  match file with
  | none => (.ok 0, store)
  | some log => replayLoop heap envs (log.length + 1) 0 log 0 store

end AerugoCache.Persistence
