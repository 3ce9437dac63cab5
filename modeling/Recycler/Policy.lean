import Recycler.Text.Quoted
import Recycler.Text.Shape

/-!
# Execution policies

How the background work of one item is carried out. A holder takes its policy when it is acquired
and hands it to every tree it builds; a release clears it.
-/

namespace Recycler

/-- Where background work runs. -/
inductive Executor
  /-- At once, by whoever hands the work over. -/
  | inline
  /-- In the queue with this number, in the order in which work is handed over. -/
  | queue (number : Nat)
  deriving DecidableEq, Repr

/-- The queue of an executor, if it has one. -/
def Executor.queue? : Executor → Option Nat
  | .inline => none
  | .queue number => some number

/-- The kinds of executors by when they carry out what is handed to them. -/
inductive Executor.Style
  /-- At once. -/
  | inline
  /-- When told to. -/
  | manual
  /-- On a thread of its own. -/
  | worker
  deriving DecidableEq, Repr

/-- Whether somebody outside the tasks of an executor runs where its tasks run. -/
def Executor.Style.isCurrentOutside : Executor.Style → Bool
  | .inline => true
  | .manual => false
  | .worker => false

/-- An executor of a style in printed values, where it has a printed form. -/
def Executor.Style.text? (name : String) : Executor.Style → Option String
  | .inline => some "InlineLayoutHandler"
  | .manual => none
  | .worker => some (Text.record "ThreadLayoutHandler" [("name", Text.quote name)])

/-- How background work of one item is carried out. -/
structure Policy where
  /-- Where background layout runs. Without one the engine runs it at once. -/
  layoutOn : Option Executor := none
  prefetchesDisplayLists : Bool := false
  cachesDisplayLists : Bool := false
  /-- Where mount content is prepared ahead of time. -/
  preparesOn : Option Executor := none
  preparesOnDefault : Bool := false
  preparesPerMountSpec : Bool := false
  splitTag : Option String := none
  deriving DecidableEq, Inhabited

/-- One step in building a policy, with executors given as `ε`. -/
inductive Policy.Setting (ε : Type)
  | layoutOn (executor : ε)
  | displayLists (prefetches caches : Bool)
  | preparation (executor : Option ε) (onDefault perMountSpec : Bool)
  | splitTag (tag : String)
  deriving DecidableEq

namespace Policy

/-- Finds the executor of a setting, if the setting has one. -/
def Setting.resolve {ε : Type} (find : ε → Option Executor) :
    Setting ε → Option (Setting Executor)
  | .layoutOn executor => (find executor).map .layoutOn
  | .displayLists prefetches caches => some (.displayLists prefetches caches)
  | .preparation none onDefault perMountSpec => some (.preparation none onDefault perMountSpec)
  | .preparation (some executor) onDefault perMountSpec =>
    (find executor).map fun e => .preparation (some e) onDefault perMountSpec
  | .splitTag tag => some (.splitTag tag)

/-- Applies one setting. -/
def apply (p : Policy) : Setting Executor → Policy
  | .layoutOn executor => { p with layoutOn := some executor }
  | .displayLists prefetches caches =>
    { p with prefetchesDisplayLists := prefetches, cachesDisplayLists := caches }
  | .preparation executor onDefault perMountSpec =>
    { p with
      preparesOn := executor, preparesOnDefault := onDefault, preparesPerMountSpec := perMountSpec }
  | .splitTag tag => { p with splitTag := some tag }

/-- Builds a policy from settings applied in order. -/
def build (settings : List (Setting Executor)) : Policy := settings.foldl apply {}

/-- Builds a policy from settings whose executors still have to be found. -/
def build? {ε : Type} (find : ε → Option Executor) (settings : List (Setting ε)) :
    Option Policy :=
  (settings.mapM (Setting.resolve find)).map build

/-- The executors a policy refers to. -/
def executors (p : Policy) : List Executor := p.layoutOn.toList ++ p.preparesOn.toList

/-- A policy in printed values. Executors are only shown to be there. -/
def text (p : Policy) : String :=
  Text.record "ExecutionPolicy" [
    ("layout_handler", Text.bool p.layoutOn.isSome),
    ("can_prefetch_display_lists", Text.bool p.prefetchesDisplayLists),
    ("can_cache_drawing_display_lists", Text.bool p.cachesDisplayLists),
    ("preallocate_mount_content_handler", Text.bool p.preparesOn.isSome),
    ("can_preallocate_on_default_handler", Text.bool p.preparesOnDefault),
    ("should_preallocate_per_mount_spec", Text.bool p.preparesPerMountSpec),
    ("split_layout_tag", Text.option (p.splitTag.map Text.quote))]

end Policy

end Recycler
