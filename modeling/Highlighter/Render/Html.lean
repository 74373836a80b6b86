import Highlighter.Span

/-!
Text for a web page: one `pre` element with a `span` element for every span, whose class tells the
tag. Spans of the whitespace tag are written without an element.
-/

set_option autoImplicit false

namespace Highlighter

namespace Html

def escapeChar : Char → Text
  | '&' => "&amp;".toList
  | '<' => "&lt;".toList
  | '>' => "&gt;".toList
  | c => [c]

def escape (t : Text) : Text := t.flatMap escapeChar

def openPre : Text := "<pre class=\"bithoven\">".toList

def closePre : Text := "</pre>\n".toList

def openSpan (classes : Text) : Text := "<span class=\"".toList ++ classes ++ "\">".toList

def closeSpan : Text := "</span>".toList

/-- What stands in front of a tag in a class, if nothing else is asked for. -/
def standardClass : Text := "bh-".toList

/-- A span as an element; its class is its tag behind `before`. -/
def renderSpan (before blank : Text) (t : Text) (s : Span) : Text :=
  let content := escape (t.slice s.start s.stop)
  if s.tag = blank then content else openSpan (before ++ s.tag) ++ content ++ closeSpan

def render (before blank : Text) (t : Text) (spans : List Span) : Text :=
  openPre ++ spans.flatMap (renderSpan before blank t) ++ closePre

end Html

end Highlighter
