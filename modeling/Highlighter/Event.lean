import Highlighter.Edit.Basic

/-!
Events that are worth a line in the log. Each has a level, a part of the program that reports it
and a message.
-/

set_option autoImplicit false

namespace Highlighter

inductive Event where
  /-- A pass of a generation read a text again after an edit. -/
  | relexed (generation : Nat) (edit : Edit) (rescanned total : Nat)
  /-- A pass was overtaken by a newer edit. -/
  | passDiscarded (generation current : Nat)
  | opened (uri : String) (length : Nat)
  /-- A change did not fit the document, which is loaded anew. -/
  | outOfSync (uri : String) (reason : String)
  | highlighted (path format : String)
  deriving DecidableEq, Repr

namespace Event

def level : Event → String
  | outOfSync .. => "WARNING"
  | _ => "DEBUG"

def source : Event → String
  | relexed .. | passDiscarded .. => "bithlex.document"
  | opened .. | outOfSync .. => "bithlex.lsp"
  | highlighted .. => "bithlex.cli"

def message : Event → String
  | relexed generation e rescanned total =>
    s!"relex gen={generation} edit={e.start}:{e.stop}+{e.text.length}" ++
      s!" rescanned={rescanned} of {total} tokens"
  | passDiscarded generation current =>
    s!"discarding stale pass gen={generation} (current {current})"
  | opened uri length => s!"opened {uri} ({length} chars)"
  | outOfSync uri reason => s!"out-of-sync change for {uri}, reloading: {reason}"
  | highlighted path format => s!"highlighted {path} as {format}"

/-- The event as a line of a log file. -/
def line (e : Event) : String := s!"{e.level}:{e.source}:{e.message}\n"

end Event

end Highlighter
