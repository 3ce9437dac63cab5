import Recycler.Section.Render
import Recycler.Store.Request

/-!
# Commands

What a session can be told to do. Commands name what they are about by registers, which commands
before them filled; a command looks its registers up in the order in which they stand in it. A step
is a command together with what its answer shows besides the result.

Callbacks run scripts: lists of steps, one list for each time the callback is called. A command
that comes with a callback names the script by its number, so that a `Program` consists of its
steps and a table of scripts, and commands do not contain one another, a spawned one apart.
-/

namespace Recycler

/-- A register a command refers to. -/
inductive Register
  | component (name : String)
  /-- A component on one side of a section's prop. -/
  | side (name : String)
  | item (name : String)
  /-- An executor that a policy refers to. -/
  | executor (name : String)
  /-- An executor whose layouts are to be carried out now. -/
  | manual (name : String)
  | engine (name : String)
  | gate (name : String)
  | pool (name : String)
  | handle (name : String)
  | weak (name : String)
  | job (name : String)
  /-- The engine of a tree, whichever tree it may be. -/
  | treesOf (engine : String)
  | tree (engine : String) (index : Option Nat)
  deriving DecidableEq

/-- The register that a command is to fill. Its name may be missing, which shows only when there is
something to put into the register. -/
abbrev Target := Option String

/-- What an item renders, with the component in a register. -/
inductive Source
  | component (name : String)
  | view (viewType : UInt32)
  deriving DecidableEq

/-- A command about the holder in a register. -/
inductive HolderCommand
  | clone (into : String)
  | release
  | print
  | view
  | downgrade (into : String)
  | describe (item : String)
  | invalidate
  | setHeight (height : Int32)
  | setInserted (inserted : Bool)
  | advance (progress : Progress)
  | clearParked
  | evict
  | reportWindow (position : UInt64) (window : Window)
  | setReadyListener (listener : Option ReadyListener)
  deriving DecidableEq

/-- A command about a tree. -/
inductive TreeCommand
  | isLaidOutFor (bounds : Bounds)
  | snapshot
  | release
  | reportWindow (position : UInt64) (window : Window)
  | setReadyListener (listener : Option ReadyListener)
  | mount
  | update (key : String) (value : Value)
  | get (key : String) (kind : Kind)
  | view
  deriving DecidableEq

/-- A command about the engine in a register. -/
inductive EngineCommand
  | view
  /-- Makes the next layout fail. -/
  | arm (reason : String)
  /-- Makes the engine refuse the next tree. Only an engine that reports its trees can. -/
  | refuseNext
  | viewContext (tag : String)
  | build (component : String) (policy : List (Policy.Setting String))
      (snapshot : Option Snapshot) (clipsChildren wasMounted : Bool)
      (listener : Option MeasureListener)
  deriving DecidableEq

/-- A command about the pool in a register. -/
inductive PoolCommand
  | view
  | clear
  deriving DecidableEq

/-- A command. -/
inductive Command
  | component (into name : String) (equivalence : Equivalence)
  | item (into : String) (source : Source) (settings : List Descriptor.Setting)
  | section (component : Diff String) (sticky : Diff Bool) (spanSize : Diff UInt32)
      (fullSpan : Diff Bool) (context : Section.Context) (into : Target)
  | executor (into : String) (style : Executor.Style)
  | runWaiting (executor : String) (count : Option Nat)
  | engine (into : String) (measure : Measure) (manner : Engine.Manner)
  | onEngine (engine : String) (command : EngineCommand)
  | gate (into : String)
  | setGate (gate : Option String) (engine : String)
  | openGate (gate : String)
  | viewGate (gate : String)
  | pool (into : String) (capacity : UInt64)
  | onPool (pool : String) (command : PoolCommand)
  | dropPool (pool : String)
  | acquire (item : String) (policy : List (Policy.Setting String)) (factory : Option Factory)
      (pool : String) (into : Target)
  /-- Asks a holder for a layout. -/
  | layout (bounds : Bounds) (engine tag handle : String) (background : Bool)
  | onHolder (handle : String) (command : HolderCommand)
  | dropHandle (handle : String)
  /-- Resolves a weak handle, and keeps the holder if `into` says so. -/
  | upgrade (weak : String) (into : Option Target)
  | writeHeight (weak : String) (height : Int32)
  /-- Asks a tree for a layout. -/
  | layoutTree (bounds : Bounds) (component : String) (props : Option (Shared Props))
      (engine : String) (index : Option Nat) (background : Bool)
  | onTree (engine : String) (index : Option Nat) (command : TreeCommand)
  | spawn (command : Command) (into : Target)
  | join (job : String)
  /-- Panics out of whatever runs the command. -/
  | panic (message : String)
  /-- A command with a bad field, found after the registers in front of it were looked up. -/
  | malformed (registers : List Register) (field : String)
  deriving DecidableEq

/-- A command with what its answer shows: the name it goes by, the holder register whose state is
shown afterwards, and whether the pools are shown. -/
structure Step where
  name : Option String
  handle : Option String := none
  showsPools : Bool := false
  command : Command
  deriving DecidableEq

/-- The steps of a session and the scripts of its callbacks. -/
structure Program where
  steps : List Step
  /-- The scripts by number: what to do at the first call, at the second, and so on. -/
  scripts : List (List (List Step))
  /-- A number beyond those of all props in the program. -/
  allocations : Nat := 0
  deriving DecidableEq

namespace Command

/-- The number of commands in a command. -/
def weight : Command → Nat
  | spawn command _ => command.weight + 1
  | _ => 1

end Command

namespace Program

/-- The number of commands in a program. -/
def weight (p : Program) : Nat :=
  let ofSteps (steps : List Step) : Nat := steps.foldr (fun step n => step.command.weight + n) 0
  let ofScript (script : List (List Step)) : Nat := script.foldr (fun list n => ofSteps list + n) 0
  ofSteps p.steps + p.scripts.foldr (fun script n => ofScript script + n) 0

end Program

end Recycler
