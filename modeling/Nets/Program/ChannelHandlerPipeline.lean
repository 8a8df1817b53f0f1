import Nets.Library.Links
import Nets.Library.Refinement

/-! # Pipelines of handlers

`net/core/ChannelHandlerPipeline.cpp`, `net/core/ChannelHandler.cpp`,
`ServerSocketChannel::initSocketChannel`, and the way of an event through
`net/core/SocketChannelHandlerPipeline.cpp` and `net/core/SocketChannelHandler.cpp`. The links are in
the handlers and not in the pipeline, which has only the first of them. A walk along the links gets
fuel, and there is no result where it runs out. -/

namespace Nets

open Library

/-- `next_` of every handler. -/
abbrev Links (η : Type) := η → Option η

/-- `headChannelHandler_`. -/
structure ChannelHandlerPipeline (η : Type) where
  headChannelHandler : Option η

namespace ChannelHandlerPipeline

variable {η : Type}

/-- Handlers as constructed. -/
def unlinked : Links η := fun _ => none

def empty : ChannelHandlerPipeline η where
  headChannelHandler := none

/-- `ChannelHandler::findLast`. -/
def findLast (fuel : ℕ) (next : Links η) (handler : η) : Option η :=
  match next handler with
  | none => some handler
  | some temp => Loop.run (seekLast next) fuel temp

/-- `ChannelHandler::findLastPrev`. No result where `next_` is null: it is dereferenced. -/
def findLastPrev (fuel : ℕ) (next : Links η) (handler : η) : Option η :=
  (next handler).bind fun temp => Loop.run (seekLastPrev next) fuel (handler, temp)

/-- `ChannelHandler::findChannelHandlerPrev`, the same walk for a name and for a handler. -/
def findChannelHandlerPrev (fuel : ℕ) (is : η → Bool) (next : Links η) (handler : η) :
    Option (Option η) :=
  Loop.run (seekPrev next is) fuel (handler, next handler)

variable [DecidableEq η]

def addFirst (channelHandler : Option η) (next : Links η) (pipeline : ChannelHandlerPipeline η) :
    Links η × ChannelHandlerPipeline η :=
  match channelHandler with
  | none => (next, pipeline)
  | some channelHandler =>
    (if pipeline.headChannelHandler.isSome then
        Function.update next channelHandler pipeline.headChannelHandler
      else next,
      { headChannelHandler := some channelHandler })

def addLast (fuel : ℕ) (channelHandler : Option η) (next : Links η)
    (pipeline : ChannelHandlerPipeline η) : Option (Links η × ChannelHandlerPipeline η) :=
  match channelHandler, pipeline.headChannelHandler with
  | none, _ => some (next, pipeline)
  | some channelHandler, some head =>
    (findLast fuel next head).map fun last =>
      (Function.update next last (some channelHandler), pipeline)
  | some channelHandler, none => some (next, { headChannelHandler := some channelHandler })

def unlinkHead (headChannelHandler : η) (next : Links η) : Links η × ChannelHandlerPipeline η :=
  match next headChannelHandler with
  | some following =>
    (Function.update next headChannelHandler none, { headChannelHandler := some following })
  | none => (next, { headChannelHandler := none })

def unlinkChannelHandler (prev channelHandler : η) (next : Links η) : Links η :=
  match next channelHandler with
  | some following =>
    Function.update (Function.update next prev (some following)) channelHandler none
  | none => Function.update next prev none

def removeFirst (next : Links η) (pipeline : ChannelHandlerPipeline η) :
    (Links η × ChannelHandlerPipeline η) × Option η :=
  match pipeline.headChannelHandler with
  | none => ((next, pipeline), none)
  | some first => (unlinkHead first next, some first)

def removeLast (fuel : ℕ) (next : Links η) (pipeline : ChannelHandlerPipeline η) :
    Option ((Links η × ChannelHandlerPipeline η) × Option η) :=
  match pipeline.headChannelHandler with
  | none => some ((next, pipeline), none)
  | some head =>
    if (next head).isNone then some (unlinkHead head next, some head)
    else (findLastPrev fuel next head).map fun prev =>
      ((Function.update next prev none, pipeline), next prev)

/-- What both overloads of `remove` do with the first handler that `is` selects, which they return.
No result where a null pointer is dereferenced. -/
def removeThe (fuel : ℕ) (is : η → Bool) (next : Links η) (pipeline : ChannelHandlerPipeline η) :
    Option ((Links η × ChannelHandlerPipeline η) × Option η) :=
  match pipeline.headChannelHandler with
  | none => some ((next, pipeline), none)
  | some head =>
    if is head then some (unlinkHead head next, some head)
    else
      (findChannelHandlerPrev fuel is next head).bind fun
        | none => some ((next, pipeline), none)
        | some prev => (next prev).map fun rm => ((unlinkChannelHandler prev rm next, pipeline), some rm)

/-- `remove(const StringType& name)`; `names` are the `name_` of the handlers. -/
def removeName (fuel : ℕ) (names : η → String) (name : String) (next : Links η)
    (pipeline : ChannelHandlerPipeline η) :
    Option ((Links η × ChannelHandlerPipeline η) × Option η) :=
  if name = "" then some ((next, pipeline), none)
  else removeThe fuel (fun handler => names handler = name) next pipeline

/-- `remove(const ChannelHandlerPtr& channelHandler)`. -/
def removeHandler (fuel : ℕ) (channelHandler : Option η) (next : Links η)
    (pipeline : ChannelHandlerPipeline η) : Option ((Links η × ChannelHandlerPipeline η) × Bool) :=
  match channelHandler with
  | none => some ((next, pipeline), false)
  | some channelHandler =>
    (removeThe fuel (fun handler => handler = channelHandler) next pipeline).map fun (state, rm) =>
      (state, rm.isSome)

/-! ## The operations of one pipeline -/

inductive Operation (η : Type) where
  | addFirst (channelHandler : Option η)
  | addLast (channelHandler : Option η)
  | removeFirst
  | removeLast
  | removeName (name : String)
  | removeHandler (channelHandler : Option η)

/-- What an operation returns: nothing, a `ChannelHandlerPtr` or a `bool`. -/
inductive Output (η : Type) where
  | done
  | handler (handler : Option η)
  | removed (removed : Bool)
  deriving DecidableEq

def execute (fuel : ℕ) (names : η → String) (s : Links η × ChannelHandlerPipeline η) :
    Operation η → Option ((Links η × ChannelHandlerPipeline η) × Output η)
  | .addFirst channelHandler => some (addFirst channelHandler s.1 s.2, .done)
  | .addLast channelHandler => (addLast fuel channelHandler s.1 s.2).map fun s => (s, .done)
  | .removeFirst => some ((removeFirst s.1 s.2).map id .handler)
  | .removeLast => (removeLast fuel s.1 s.2).map (Prod.map id .handler)
  | .removeName name => (removeName fuel names name s.1 s.2).map (Prod.map id .handler)
  | .removeHandler channelHandler =>
    (removeHandler fuel channelHandler s.1 s.2).map (Prod.map id .removed)

def machine (fuel : ℕ) (names : η → String) :
    Machine (Links η × ChannelHandlerPipeline η) (Operation η) (Output η) := ⟨execute fuel names⟩

/-! ## The handlers of accepted connections -/

/-- `ServerSocketChannel::initSocketChannel`, where no callback is set: every handler is added to the
pipeline of the new channel. -/
def initSocketChannel (fuel : ℕ) (childHandlers : List η) (next : Links η) :
    Option (Links η × ChannelHandlerPipeline η) :=
  childHandlers.foldlM (fun (next, pipeline) handler => addLast fuel (some handler) next pipeline)
    (next, empty)

/-- The pipelines of the given number of connections, one built after the other. -/
def accept (fuel : ℕ) (childHandlers : List η) :
    ℕ → Option (Links η × List (ChannelHandlerPipeline η))
  | 0 => some (unlinked, [])
  | connections + 1 =>
    (accept fuel childHandlers connections).bind fun (next, pipelines) =>
      (initSocketChannel fuel childHandlers next).map fun (next, pipeline) =>
        (next, pipelines ++ [pipeline])

/-! ## Events -/

/-- The handlers an inbound event reaches, in order, where each of them forwards it to `next_`. -/
def Reaches (next : Links η) (pipeline : ChannelHandlerPipeline η) (handlers : List η) : Prop :=
  Loop.Returns (visit next) (pipeline.headChannelHandler, []) handlers

/-- The ways in which a handler takes itself out of the pipeline. -/
inductive SelfRemoval where
  | remove
  | removeFirst
  | removeLast
  deriving DecidableEq, Repr

def removeSelf (fuel : ℕ) (selfRemoval : Option SelfRemoval) (channelHandler : η) (next : Links η)
    (pipeline : ChannelHandlerPipeline η) : Option (Links η × ChannelHandlerPipeline η) :=
  match selfRemoval with
  | none => some (next, pipeline)
  | some .remove => (removeHandler fuel (some channelHandler) next pipeline).map Prod.fst
  | some .removeFirst => some (removeFirst next pipeline).1
  | some .removeLast => (removeLast fuel next pipeline).map Prod.fst

/-- An event on its way: the handler whose `channelRead` is called, and those that were called. -/
structure Propagation (η : Type) where
  channelHandler : Option η
  next : Links η
  pipeline : ChannelHandlerPipeline η
  received : List η

/-- `channelRead` of a handler that takes itself out, where it does, and then calls
`fireChannelRead`. No result where taking it out has none. -/
def channelRead (fuel : ℕ) (selfRemoval : η → Option SelfRemoval) (s : Propagation η) :
    Propagation η ⊕ Option (Propagation η) :=
  match s.channelHandler with
  | none => .inr (some s)
  | some channelHandler =>
    match removeSelf fuel (selfRemoval channelHandler) channelHandler s.next s.pipeline with
    | none => .inr none
    | some (next, pipeline) =>
      .inl
        { channelHandler := next channelHandler
          next := next
          pipeline := pipeline
          received := s.received ++ [channelHandler] }

/-- `SocketChannelHandlerPipeline::fireSocketChannelRead`. -/
def fireSocketChannelRead (next : Links η) (pipeline : ChannelHandlerPipeline η) :
    Propagation η where
  channelHandler := pipeline.headChannelHandler
  next := next
  pipeline := pipeline
  received := []

end ChannelHandlerPipeline

end Nets
