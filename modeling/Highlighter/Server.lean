import Highlighter.Document
import Highlighter.Edit.Report
import Highlighter.SemanticTokens

/-!
A server for an editor. It keeps a document for every file that is open, follows the changes to
it, and answers with its semantic tokens. The workspace holds the texts that documents are loaded
from when they are not known yet or no longer in step.
-/

set_option autoImplicit false

namespace Highlighter

/-- A change to a document as an editor tells it: a new text for all of it, or for a range from one
position (line and character) to another. -/
inductive Change where
  | whole (text : Text)
  | range (startLine startCharacter stopLine stopCharacter : Int) (text : Text)
  deriving DecidableEq, Repr

/-- The edit that a change of a text is. It need not fit: the range may end before it starts. -/
def Change.toEdit (t : Text) : Change → Edit
  | whole text => Edit.between t text
  | range startLine startCharacter stopLine stopCharacter text =>
    let x := LineIndex.ofText t
    ⟨x.offsetAt startLine startCharacter, x.offsetAt stopLine stopCharacter, text⟩

structure Server where
  config : Config
  documents : Entries String Document := []
  workspace : Entries String Text := []

namespace Server

/-- The names of the token types, to which the numbers in answers refer. -/
def legend (s : Server) : List Text := s.config.visibleTagNames

/-- Sets the text of a file in the workspace. -/
def putFile (s : Server) (uri : String) (t : Text) : Server :=
  { s with workspace := s.workspace.put uri t }

def putDocument (s : Server) (uri : String) (d : Document) : Server :=
  { s with documents := s.documents.put uri d }

/-- The document of a file as the workspace has it. -/
def load (s : Server) (uri : String) : Document :=
  Document.ofText s.config ((s.workspace.get? uri).getD [])

/-- The document of a file, which is loaded if it is not known. -/
def document (s : Server) (uri : String) : Document × Server :=
  match s.documents.get? uri with
  | some d => (d, s)
  | none => (s.load uri, s.putDocument uri (s.load uri))

/-- A file is opened with a text. -/
def didOpen (s : Server) (uri : String) (t : Text) : Server × List Event :=
  (s.putDocument uri (Document.ofText s.config t), [.opened uri t.length])

def applyChange (d : Document) (c : Change) : Except EditError Document :=
  d.applyEdit (c.toEdit d.text)

/-- A file is changed. The changes apply one after the other; if one of them does not fit, the file
is loaded anew. Changes to a file that is not known only load it. -/
def didChange (s : Server) (uri : String) (changes : List Change) : Server × List Event :=
  match s.documents.get? uri with
  | none => (s.putDocument uri (s.load uri), [])
  | some d =>
    match changes.foldlM applyChange d with
    | .ok d => (s.putDocument uri d, [])
    | .error e => (s.putDocument uri (s.load uri), [.outOfSync uri e.message])

def didClose (s : Server) (uri : String) : Server :=
  { s with documents := s.documents.erase uri }

/-- The semantic tokens of a file. -/
def semanticTokens (s : Server) (uri : String) :
    Except EditError (List Int × Server × List Event) := do
  let (d, s) := s.document uri
  let (d, events) ← d.refresh
  return (encodeSemanticTokens d.text d.spans s.legend, s.putDocument uri d, events)

end Server

end Highlighter
