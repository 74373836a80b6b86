import Highlighter.Cache
import Highlighter.Edit.Basic

/-!
Reading a text again after an edit.

The tokens that end before the edit are kept up to the last one behind which a scan is sure to
start afresh. From there the new text is read, until a token past the edit is the same as a cached
one at the corresponding place. The cached tokens from that one on are moved to their new places.

A token behind which a scan may restart is told from the next one by at most one character after
it, so that the edit cannot have changed it; and two scans that have both come to the same place
with the same text ahead go on alike.
-/

set_option autoImplicit false

namespace Highlighter

namespace Token

/-- A scan may restart behind the token whatever comes before it. A block comment has to be closed
for that; `/*/` is not, although it ends in `*/`. -/
def isRestart (t : Token) : Bool :=
  match t.kind with
  | .whitespace | .operator | .lineComment | .stringLiteral => true
  | .blockComment => 4 ≤ t.lexeme.length && "*/".toList.isSuffixOf t.lexeme
  | _ => false

/-- A scan may restart behind the token although the text changes from `place` on. -/
def isRestartBefore (place : Int) (t : Token) : Bool := t.stop < place && t.isRestart

end Token

/-- How many tokens need not be read again when the text changes from `place` on. -/
def restartIndex (tokens : List Token) (place : Int) : Nat :=
  let before := tokens.takeWhile (·.start < place)
  before.length - (before.reverse.takeWhile (!·.isRestartBefore place)).length

namespace Edit

/-- The cached tokens from the one that `t`, read in the new text, is the same as. Only tokens
past the edit are compared. -/
def meet (e : Edit) (t : Token) (cached : List Token) : Option (List Token) :=
  if t.start < e.newStop then none
  else
    match cached.dropWhile (·.start ≠ t.start - e.delta) with
    | [] => none
    | old :: rest =>
      if old.kind = t.kind ∧ old.lexeme = t.lexeme then some (old :: rest) else none

end Edit

/-- Tokens that were read again, and the cached tokens that go on after them. -/
structure Splice where
  fresh : List Token
  tail : List Token
  deriving DecidableEq, Repr

/-- Reads a text token by token from `offset` on, until one meets a cached token. -/
def splice (keywords : Keywords) (e : Edit) (cached : List Token) (t : Text) (offset : Nat)
    (mode : Mode) : Splice :=
  match h : nextToken? t offset mode with
  | none => ⟨[], []⟩
  | some (raw, after) =>
    let u := keywords.classify raw
    match e.meet u cached with
    | some tail => ⟨[], tail⟩
    | none =>
      have := lt_of_nextToken? h
      let more := splice keywords e cached t raw.stop.toNat after
      ⟨u :: more.fresh, more.tail⟩
termination_by t.length - offset

namespace Cache

/-- The cache after an edit. -/
def relex (keywords : Keywords) (prior : Cache) (e : Edit) : Except EditError Cache := do
  let text ← e.apply prior.text
  let kept := prior.tokens.take (restartIndex prior.tokens e.start)
  let place := (kept.getLast?.map (·.stop)).getD 0
  let cached := prior.tokens.dropWhile (·.start < e.stop)
  let s := splice keywords e cached text place.toNat .default
  return {
    text
    tokens := kept ++ s.fresh ++ s.tail.map (·.shift e.delta)
    rescanned := s.fresh.length + if s.tail = [] then 0 else 1 }

end Cache

end Highlighter
