import NeoTavern.Kernel.World
import NeoTavern.Kernel.Executor

namespace Kernel

open Wire Storage

-- The answer of an operation is not modelled beyond its success.
def unit (p : KernelM α) : KernelM Unit := do
  let _ ← p
  return ()

def handleOperation : UnaryOp → KernelM Unit
  | .charactersCreate req  => unit <| charactersCreate req
  | .charactersUpdate req  => unit <| charactersUpdate req
  | .charactersDelete req  => charactersDelete req
  | .generationCancel req  => generationCancel req
  | .generationGet req     => unit <| generationGet req
  | .generationEvents req  => unit <| generationEvents req
  | .generationKeep req    => unit <| generationKeep req
  | .generationDiscard req => unit <| generationDiscard req
  | .other result          => Proc.ofExcept result

def handleUnary (op : UnaryOp) (cancelled : Bool) : KernelM Unit :=
  if cancelled then
    Proc.fail { code := .cancelled, message := "operation cancelled before dispatch" }
  else
    handleOperation op

-- One command found by a drain. Streams wait for the writer, and the answer says whether the
-- command is a shutdown.
def drainCommand : Command → KernelM Bool
  | .unary op cancelled => do
    let _ ← Proc.attempt <| handleUnary op cancelled
    return false
  | .stream op => do
    Proc.modify fun w => { w with pending := w.pending ++ [.stream op] }
    return false
  | .setRunTimeout millis => do
    Proc.modify fun w => { w with runTimeout := millis }
    return false
  | .shutdown => do
    Proc.modify fun w => { w with stop := true }
    return true

def drainCommands : List Command → KernelM Bool
  | []      => return false
  | c :: cs => do
    let shutdown ← drainCommand c
    let rest ← drainCommands cs
    return shutdown || rest

-- The commands that are there when the writer looks, which leaves the channel empty.
def takeBatch : KernelM (List Command) := fun w =>
  (.ok <| w.inbox.headD [], { w with inbox := w.inbox.tail })

def drainPending : KernelM Bool := do
  let batch ← takeBatch
  drainCommands batch

-- Waits for the next command, or reports that no more will come.
def receive : List (List Command) → Option (Command × List (List Command))
  | []              => none
  | [] :: batches   => receive batches
  | (c :: cs) :: bs => some (c, cs :: bs)

def nextCommand : KernelM (Option Command) := fun w =>
  match w.pending with
  | c :: cs => (.ok <| some c, { w with pending := cs })
  | []      =>
    match receive w.inbox with
    | some (c, inbox) => (.ok <| some c, { w with inbox })
    | none            => (.ok none, { w with stop := true })

section Serve

-- The registry is fixed when the writer starts.
variable (leaseOwner : String) (registry : ProviderRegistry)

def serveStream (op : StreamOp) : KernelM Unit := do
  match ← Proc.attempt <| streamStart op leaseOwner with
  | .error _     => return ()
  | .ok streamId => do
    let runTimeout ← Proc.gets (·.runTimeout)
    let _ ← Proc.attempt <| executeStream leaseOwner drainPending streamId registry runTimeout
    return ()

def serveCommand : Command → KernelM Unit
  | .unary op cancelled   => do
    let _ ← Proc.attempt <| handleUnary op cancelled
    return ()
  | .stream op            => serveStream leaseOwner registry op
  | .setRunTimeout millis => Proc.modify fun w => { w with runTimeout := millis }
  | .shutdown             => Proc.modify fun w => { w with stop := true }

-- One turn of the writer's loop.
def serve : KernelM Unit := do
  if ← Proc.gets (·.stop) then
    return ()
  match ← nextCommand with
  | none   => return ()
  | some c => serveCommand leaseOwner registry c

def serveMany : Nat → KernelM Unit
  | 0     => return ()
  | n + 1 => do
    serve leaseOwner registry
    serveMany n

-- The first `turns` turns of the writer thread.
def writerMain (turns : Nat) : KernelM Unit := do
  let _ ← Proc.attempt recover
  serveMany leaseOwner registry turns

end Serve

end Kernel
