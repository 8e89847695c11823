import AerugoCache.CommandCodec

/-!
# Serving requests

The body of the loop of `handle_connection` in `server.rs`, cut where the source
takes and releases its locks: execute the command on the store, append its record
to the log, reply.
-/

namespace AerugoCache.Server

open AerugoCache.ByteText AerugoCache.Protocol AerugoCache.Storage AerugoCache.Commands
  AerugoCache.Persistence

/-- The frame of a request, what its command reads while it runs, and how the
    append of its record would end.  The frame is one a machine can hold. -/
structure Request where
  frame : Frame
  env : Env
  outcome : AppendOutcome
  held : frame.Fits .unlimited

/-- A command as a client sends it. -/
def clientRequest (name : String) (args : List Bytes) (env : Env)
    (held : decide (args.length + 1 < 2 ^ 64 ∧ (utf8 name).length < 2 ^ 63 ∧
      ∀ arg ∈ args, arg.length < 2 ^ 63) = true := by exact Eq.refl true) : Request where
  frame := commandFrame name args
  env := env
  outcome := .written
  held := commandFrame_fits.mpr (of_decide_eq_true held)

structure ServerState where
  store : MemoryStore
  aof : Option Bytes

/-- Parse and execute: the response with the record to log, or the error. -/
def executeRequest (request : Request) (store : MemoryStore) :
    Except CommandError (Frame × Option Frame) × MemoryStore :=
  match Command.fromFrame request.frame with
  | .ok command =>
      let aofFrame := command.toAofFrame request.env.clock
      let (result, store) := command.execute request.env store
      (result.map fun response => (response, aofFrame), store)
  | .error error => (.error error, store)

def appendCommand (aof : Option Bytes) (frame : Option Frame) (outcome : AppendOutcome) :
    Bool × Option Bytes :=
  match aof, frame with
  | some log, some frame =>
      let (appended, log) := append log frame outcome
      (appended, some log)
  | aof, _ => (true, aof)

def PERSIST_FAILURE : Frame := .error "ERR failed to persist command"

def handleRequest (request : Request) (state : ServerState) : Frame × ServerState :=
  match executeRequest request state.store with
  | (.ok (response, aofFrame), store) =>
      let (appended, aof) := appendCommand state.aof aofFrame request.outcome
      (if appended then response else PERSIST_FAILURE, { store, aof })
  | (.error error, store) => (Command.errorFrame error, { state with store })

/-- One client: its requests are handled one after another. -/
def serve : List Request → ServerState → List Frame × ServerState
  | [], state => ([], state)
  | request :: requests, state =>
      let (response, state) := handleRequest request state
      let (responses, state) := serve requests state
      (response :: responses, state)

/-! ### The loop of a connection -/

/-- The body of the loop of `handle_connection`, from the frame to its response. -/
def handleFrame (frame : Frame) (env : Env) (outcome : AppendOutcome) (state : ServerState) :
    Frame × ServerState :=
  match Command.fromFrame frame with
  | .ok command =>
      let aofFrame := command.toAofFrame env.clock
      match command.execute env state.store with
      | (.ok response, store) =>
          let (appended, aof) := appendCommand state.aof aofFrame outcome
          (if appended then response else PERSIST_FAILURE, { store, aof })
      | (.error error, store) => (Command.errorFrame error, { state with store })
  | .error error => (Command.errorFrame error, state)

theorem handleRequest_eq (request : Request) (state : ServerState) :
    handleRequest request state =
      handleFrame request.frame request.env request.outcome state := by
  rw [handleRequest, executeRequest, handleFrame]
  rcases Command.fromFrame request.frame with error | command
  · rfl
  · simp only
    rcases command.execute request.env state.store with ⟨error | response, store⟩ <;> rfl

/-- Whether an append succeeds depends on the log only by there being one. -/
theorem appendCommand_fst {aof aof' : Option Bytes} (h : aof.isSome = aof'.isSome)
    (frame : Option Frame) (outcome : AppendOutcome) :
    (appendCommand aof frame outcome).1 = (appendCommand aof' frame outcome).1 := by
  cases aof <;> cases aof' <;> cases h <;> cases frame <;> cases outcome <;> rfl

theorem appendCommand_isSome (aof : Option Bytes) (frame : Option Frame)
    (outcome : AppendOutcome) : (appendCommand aof frame outcome).2.isSome = aof.isSome := by
  cases aof <;> cases frame <;> rfl

theorem handleRequest_store (request : Request) (state : ServerState) :
    (handleRequest request state).2.store = (executeRequest request state.store).2 := by
  unfold handleRequest
  rcases executeRequest request state.store with ⟨error | ⟨response, aofFrame⟩, store⟩ <;> rfl

theorem handleRequest_isSome (request : Request) (state : ServerState) :
    (handleRequest request state).2.aof.isSome = state.aof.isSome := by
  unfold handleRequest
  rcases executeRequest request state.store with ⟨error | ⟨response, aofFrame⟩, store⟩
  · rfl
  · exact appendCommand_isSome _ _ _

/-- The reply is decided by what executing the request returns, and by there being a log. -/
theorem handleRequest_reply {request : Request} {state state' : ServerState}
    (hresult : (executeRequest request state.store).1 = (executeRequest request state'.store).1)
    (hlogging : state.aof.isSome = state'.aof.isSome) :
    (handleRequest request state).1 = (handleRequest request state').1 := by
  unfold handleRequest
  generalize executeRequest request state.store = outcome at hresult ⊢
  generalize executeRequest request state'.store = outcome' at hresult ⊢
  obtain ⟨result, store⟩ := outcome
  obtain ⟨result', store'⟩ := outcome'
  cases hresult
  rcases result with error | ⟨response, aofFrame⟩
  · rfl
  · simp only [appendCommand_fst hlogging]

/-- What a round of the loop meets: what its command reads, how the append of its
    record ends, and whether its reply can be written to the socket. -/
structure Round where
  env : Env
  outcome : AppendOutcome
  sent : Bool

/-- How `handle_connection` returns: at the end of the stream, or with the error of a
    read or of a write. -/
inductive ConnectionEnd where
  | closed
  | readFailed (error : ReadError)
  | writeFailed
deriving DecidableEq, Repr

/-- The loop of `handle_connection` on the bytes that come from the client: the
    responses of its iterations, in order, and how it ends. -/
def handleConnection (heap : Allocator) (rounds : Nat → Round) :
    Nat → Nat → Bytes → ServerState → List Frame × ConnectionEnd × ServerState
  | 0, _, _, state => ([], .readFailed .outOfFuel, state)
  | fuel + 1, round, stream, state =>
      match readFrame heap stream with
      | .error error => ([], .readFailed error, state)
      | .ok (none, _) => ([], .closed, state)
      | .ok (some frame, rest) =>
          let (response, state) :=
            handleFrame frame (rounds round).env (rounds round).outcome state
          if (rounds round).sent then
            let (responses, ending, state) :=
              handleConnection heap rounds fuel (round + 1) rest state
            (response :: responses, ending, state)
          else ([response], .writeFailed, state)

/-- `run` up to its accept loop.  `appendOnly` is what is under the path of the log, where
    one is configured; a log that does not replay to its end ends `run`. -/
def startup (heap : Allocator) (envs : Nat → Env) (storeConfig : StoreConfig)
    (appendOnly : Option (Option Bytes)) : Except ReadError ServerState :=
  match appendOnly with
  | none => .ok { store := .withConfig storeConfig, aof := none }
  | some file =>
      match replay heap envs file (.withConfig storeConfig) with
      | (.ok _, store) => .ok { store, aof := some («open» file) }
      | (.error error, _) => .error error

/-- The state of a server started on an empty log. -/
def ServerState.initial (config : StoreConfig) : ServerState where
  store := MemoryStore.withConfig config
  aof := some []

end AerugoCache.Server
