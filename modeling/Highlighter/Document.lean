import Highlighter.Edit.Between
import Highlighter.Edit.Combine
import Highlighter.Event
import Highlighter.Relex
import Highlighter.Span

/-!
Documents. A document holds its current text, the cache that was committed last, and the one edit
that leads from the cached text to the current one. Edits change the text at once and are folded
into the pending edit; they do not wait for the tokens.

The tokens are brought up to date by passes. A pass takes the cache and the pending edit of the
moment when it is started, may be run at any time after, and is committed only if no edit has
come since. So what is shown is the result for the last edit and never for an older one.
-/

set_option autoImplicit false

namespace Highlighter

/-- A pass over the edit that was pending at a generation of a document. -/
structure Pass where
  config : Config
  generation : Nat
  prior : Cache
  edit : Option Edit
  result : Option Cache := none

structure Document where
  config : Config
  text : Text
  cache : Cache
  pending : Option Edit
  generation : Nat

namespace Pass

/-- The pass's result, the pass with this result, and what goes to the log. A pass is run once;
after that its result is at hand. -/
def run (p : Pass) : Except EditError (Cache × Pass × List Event) :=
  match p.result, p.edit with
  | some cache, _ => .ok (cache, p, [])
  | none, none => .ok (p.prior, { p with result := some p.prior }, [])
  | none, some edit => do
    let cache ← p.prior.relex p.config.keywords edit
    return (cache, { p with result := some cache },
      [.relexed p.generation edit cache.rescanned cache.tokens.length])

end Pass

namespace Document

def ofText (config : Config) (t : Text) : Document :=
  ⟨config, t, Cache.load config.keywords t, none, 0⟩

/-- Changes the text at once. The generation is one higher after every edit that fits; an edit
that does not fit is refused. -/
def applyEdit (d : Document) (e : Edit) : Except EditError Document := do
  let text ← e.apply d.text
  let pending :=
    match d.pending with
    | none => e
    | some p => p.combine e text
  return { d with text, pending := some pending, generation := d.generation + 1 }

/-- Puts another text in place of the current one by a single edit. The same text is no edit. -/
def replaceText (d : Document) (t : Text) : Except EditError Document :=
  let e := Edit.between d.text t
  if e.isEmpty then .ok d else d.applyEdit e

def startPass (d : Document) : Pass := ⟨d.config, d.generation, d.cache, d.pending, none⟩

/-- Takes over the result of a pass, running it if need be, unless an edit has come since the pass
was started. The answer tells whether the result was taken over. -/
def commit (d : Document) (p : Pass) : Except EditError (Bool × Document × Pass × List Event) :=
  if p.generation ≠ d.generation then
    .ok (false, d, p, [.passDiscarded p.generation d.generation])
  else do
    let (cache, p, events) ← p.run
    return (true, { d with cache, pending := none }, p, events)

/-- Brings the cache up to date. -/
def refresh (d : Document) : Except EditError (Document × List Event) :=
  match d.pending with
  | none => .ok (d, [])
  | some _ => do
    let (_, d, _, events) ← d.commit d.startPass
    return (d, events)

/-- The spans of the committed tokens. -/
def spans (d : Document) : List Span := Span.ofTokens d.config d.cache.tokens

end Document

end Highlighter
