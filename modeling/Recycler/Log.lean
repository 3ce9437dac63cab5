/-!
# Log lines

What holders, pools, trees and workers report about their work while they do it. Lines are
collected in the order in which they are written.

A line that reports how long something took shows the time as `T`, and so does every line that
reads as if it did (`Log.masked`).
-/

namespace Recycler

/-- How much a line matters. -/
inductive Log.Level
  | error
  | warn
  | debug
  | trace
  deriving DecidableEq, Repr

/-- One log line. -/
structure Log where
  level : Log.Level
  text : String
  deriving DecidableEq

namespace Log

/-- The name of a level. -/
def Level.name : Level → String
  | error => "error"
  | warn => "warn"
  | debug => "debug"
  | trace => "trace"

/-- The tag of lines written for a context without a tag of its own. -/
def defaultTag : String := "trellis"

/-- The line about a task that panicked on a worker. -/
def taskPanicked (worker : String) : Log := ⟨.error, "layout task panicked on " ++ worker⟩

/-- The last line of a worker. -/
def exiting (worker : String) : Log := ⟨.trace, "layout thread " ++ worker ++ " exiting"⟩

/-- What stands in front of a time in a line. -/
def timeMark : String := " finished in "

/-- The front of a text up to the end of the last place where `mark` stands in it, if there is one.
Such places may overlap. A mark is not empty. -/
def throughLast? (mark : List Char) : List Char → Option (List Char)
  | [] => none
  | c :: cs =>
    match throughLast? mark cs with
    | some front => some (c :: front)
    | none => if mark.isPrefixOf (c :: cs) then some mark else none

/-- A front that is found ends with the mark. -/
theorem isSuffix_of_throughLast? {mark cs front : List Char}
    (h : throughLast? mark cs = some front) : mark <:+ front := by
  induction cs generalizing front with
  | nil => simp [throughLast?] at h
  | cons c cs ih =>
    cases found : throughLast? mark cs with
    | some rest =>
      obtain rfl : c :: rest = front := by simpa [throughLast?, found] using h
      exact (ih found).trans (List.suffix_cons c rest)
    | none =>
      obtain ⟨-, rfl⟩ : mark <+: c :: cs ∧ mark = front := by simpa [throughLast?, found] using h
      exact List.suffix_rfl

/-- A front that is found is one of the text. -/
theorem isPrefix_of_throughLast? {mark cs front : List Char}
    (h : throughLast? mark cs = some front) : front <+: cs := by
  induction cs generalizing front with
  | nil => simp [throughLast?] at h
  | cons c cs ih =>
    cases found : throughLast? mark cs with
    | some rest =>
      obtain rfl : c :: rest = front := by simpa [throughLast?, found] using h
      exact (List.prefix_cons_inj c).2 (ih found)
    | none =>
      obtain ⟨start, rfl⟩ : mark <+: c :: cs ∧ mark = front := by
        simpa [throughLast?, found] using h
      exact start

/-- A line as it is shown: all that follows the last time mark in it is masked. -/
def masked (l : Log) : Log :=
  match throughLast? timeMark.toList l.text.toList with
  | some front => { l with text := String.ofList front ++ "T" }
  | none => l

/-- A text behind the tag of its context. -/
def tagged (tag text : String) : String := "[" ++ tag ++ "] " ++ text

end Log

end Recycler
