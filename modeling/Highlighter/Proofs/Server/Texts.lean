import Highlighter.Proofs.Document.InStep
import Highlighter.Proofs.LineIndex.Offset
import Highlighter.Server
import Mathlib.Logic.Function.Basic

/-!
The texts of a server: a plain map from files to texts, next to the texts of the workspace. What
comes in does to this map what it does to the texts of the documents, and what is answered can be
told from the map alone.
-/

set_option autoImplicit false

namespace Highlighter

namespace Entries

variable {α β : Type} [DecidableEq α]

theorem get?_put_eq_update (es : Entries α β) (k : α) (v : β) :
    (es.put k v).get? = Function.update es.get? k (some v) := by
  funext j
  simp only [get?_put, Function.update_apply, eq_comm]

theorem get?_erase_eq_update (es : Entries α β) (k : α) :
    (es.erase k).get? = Function.update es.get? k none := by
  funext j
  simp only [get?_erase, Function.update_apply, eq_comm]

end Entries

/-- What comes in: what an editor sends, and new texts of files in the workspace. -/
inductive Message where
  | stored (uri : String) (t : Text)
  | opened (uri : String) (t : Text)
  | changed (uri : String) (changes : List Change)
  | closed (uri : String)
  | tokens (uri : String)

/-- The file that a message is about. -/
def Message.uri : Message → String
  | stored uri _ => uri
  | opened uri _ => uri
  | changed uri _ => uri
  | closed uri => uri
  | tokens uri => uri

namespace Server

/-- The server after a message, and the answer if one is asked for. -/
def handle (s : Server) : Message → Except EditError (Server × Option (List Int))
  | .stored uri t => return (s.putFile uri t, none)
  | .opened uri t => return ((s.didOpen uri t).1, none)
  | .changed uri changes => return ((s.didChange uri changes).1, none)
  | .closed uri => return (s.didClose uri, none)
  | .tokens uri => do
    let (data, s, _) ← s.semanticTokens uri
    return (s, some data)

def serve (s : Server) : List Message → Except EditError (Server × List (Option (List Int)))
  | [] => return (s, [])
  | m :: ms => do
    let (s, answer) ← s.handle m
    let (s, answers) ← s.serve ms
    return (s, answer :: answers)

end Server

/-- The text that a change leaves, unless the change is to a range that ends before it starts. -/
def Change.result? (t : Text) : Change → Option Text
  | whole text => some text
  | range startLine startCharacter stopLine stopCharacter text =>
    let x := LineIndex.ofText t
    let start := x.offsetAt startLine startCharacter
    let stop := x.offsetAt stopLine stopCharacter
    if stop < start then none else some (t.take start ++ text ++ t.drop stop)

/-- A plain map from files to texts, and the texts of the workspace. -/
structure TextMap where
  entry : String → Option Text
  workspace : String → Text

namespace TextMap

def put (m : TextMap) (uri : String) (t : Text) : TextMap :=
  { m with entry := Function.update m.entry uri (some t) }

/-- The text of a file, or what the workspace has for it. -/
def text (m : TextMap) (uri : String) : Text := (m.entry uri).getD (m.workspace uri)

/-- The text of a file after changes, one after the other. A file without an entry is not changed,
and after a change that cannot be made the text is that of the workspace. -/
def changed (m : TextMap) (uri : String) (changes : List Change) : Text :=
  match m.entry uri with
  | none => m.workspace uri
  | some t => (changes.foldlM Change.result? t).getD (m.workspace uri)

/-- The map after a message, and the answer if one is asked for. -/
def handle (config : Config) (m : TextMap) : Message → TextMap × Option (List Int)
  | .stored uri t => ({ m with workspace := Function.update m.workspace uri t }, none)
  | .opened uri t => (m.put uri t, none)
  | .changed uri changes => (m.put uri (m.changed uri changes), none)
  | .closed uri => ({ m with entry := Function.update m.entry uri none }, none)
  | .tokens uri =>
    let t := m.text uri
    (m.put uri t, some (encodeSemanticTokens t (highlight config t) config.visibleTagNames))

def serve (config : Config) (m : TextMap) : List Message → TextMap × List (Option (List Int))
  | [] => (m, [])
  | msg :: msgs =>
    let (m, answer) := m.handle config msg
    let (m, answers) := m.serve config msgs
    (m, answer :: answers)

theorem put_put (m : TextMap) (uri : String) (t u : Text) :
    (m.put uri t).put uri u = m.put uri u := by
  rw [put, put, put, Function.update_idem]

end TextMap

namespace Change

variable {t : Text} {c : Change}

/-- A change of a range fits exactly if the range does not end before it starts. -/
theorem result?_of_fits (h : (c.toEdit t).Fits t) : c.result? t = some ((c.toEdit t).result t) := by
  cases c with
  | whole u =>
    rw [result?, toEdit, Edit.between_result]
  | range startLine startCharacter stopLine stopCharacter u =>
    have hle := h.start_le_stop
    simp only [toEdit] at hle
    rw [result?, if_neg (by omega)]
    rfl

theorem result?_of_not_fits (h : ¬ (c.toEdit t).Fits t) : c.result? t = none := by
  cases c with
  | whole u => exact absurd (Edit.between_fits t u) h
  | range startLine startCharacter stopLine stopCharacter u =>
    have hstop := LineIndex.offsetAt_le t stopLine stopCharacter
    simp only [toEdit, Edit.Fits] at h
    rw [result?, if_pos (by omega)]

end Change

end Highlighter
