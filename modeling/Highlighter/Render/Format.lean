import Highlighter.Render.Ansi
import Highlighter.Render.Html
import Highlighter.Render.Json
import Highlighter.Render.Listing

/-!
The output formats.
-/

set_option autoImplicit false

namespace Highlighter

inductive Format where
  | ansi
  | html
  | json
  | tokens
  deriving DecidableEq, Repr, Inhabited

namespace Format

def all : List Format := [ansi, html, json, tokens]

def name : Format → String
  | ansi => "ansi"
  | html => "html"
  | json => "json"
  | tokens => "tokens"

def ofName? (name : String) : Option Format := all.find? (·.name == name)

end Format

/-- The output for a text whose tokens are known. -/
def render (format : Format) (c : Config) (theme : Theme) (t : Text) (tokens : List Token) :
    Except UnknownColor Text :=
  match format with
  | .ansi => Ansi.render theme t (Span.ofTokens c tokens)
  | .html => .ok (Html.render Html.standardClass (c.tag .whitespace) t (Span.ofTokens c tokens))
  | .json => .ok (Json.render (Span.ofTokens c tokens))
  | .tokens => .ok (listing tokens)

end Highlighter
