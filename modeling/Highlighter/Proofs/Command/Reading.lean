import Highlighter.Command.Run
import Highlighter.Proofs.Except
import Highlighter.Proofs.Render.LineEnds

/-!
The input as it is read. The text that is highlighted is the one that the bytes stand for, with
plain line ends; so places in the output are places in that text, and not in the file, as soon as
lines of the file end in two characters.
-/

set_option autoImplicit false

namespace Highlighter

/-- One file in the current directory, and nothing else. -/
def Files.single (name : Text) (content : Bytes) (stamp : Stamp) : Files where
  entries := [([name], .file content stamp)]

namespace Options

/-- The options if nothing is configured and the output goes to the standard output. -/
def forFile (name : Text) (format : Format) : Options where
  input := ⟨[], [name]⟩
  output := none
  format := format
  config := .standard
  theme := .standard
  watch := false
  debug := false
  verbose := false

variable {o : Options} {files : Files} {bytes : Bytes} {t : Text}

/-- The output for the input. -/
def highlightInput (o : Options) (files : Files) : Except Fault Text := do
  o.highlight (← o.readInput files)

theorem highlightInput_eq_ok_iff {output : Text} :
    o.highlightInput files = .ok output ↔
      ∃ t, o.readInput files = .ok t ∧ o.highlight t = .ok output := by
  rw [highlightInput]
  cases o.readInput files with
  | error fault => simp [bind, Except.bind]
  | ok t => simp [bind, Except.bind]

theorem readInput_of_read (hread : files.read o.input = .ok bytes)
    (hdecode : Utf8.decode bytes = .ok t) : o.readInput files = .ok t.plainLineEnds := by
  rw [readInput, hread]
  dsimp only [mapError_ok, bind, Except.bind]
  rw [hdecode]
  rfl

theorem highlightInput_of_read (hread : files.read o.input = .ok bytes)
    (hdecode : Utf8.decode bytes = .ok t) :
    o.highlightInput files = o.highlight t.plainLineEnds := by
  rw [highlightInput, readInput_of_read hread hdecode]
  rfl

theorem highlight_plainLineEnds_eq_iff (o : Options) (t : Text) :
    o.highlight t.plainLineEnds = o.highlight t ↔
      ((∃ output, o.highlight t = .ok output) → ¬ o.format.ShowsLineEnds t) := by
  have hcolor : Function.Injective Fault.color := fun _ _ h => Fault.color.inj h
  rw [highlight, highlight, render, render, mapError_inj hcolor, exists_ok_mapError,
    render_plainLineEnds_eq_iff]

/-- What is shown is the text with plain line ends. Its tokens and spans are those of the text in
the file, each moved to where it lies then, and the output is the one for the text in the file if
and only if the format does not show how lines end. -/
theorem highlightInput_eq_highlight_iff (hread : files.read o.input = .ok bytes)
    (hdecode : Utf8.decode bytes = .ok t) :
    o.highlightInput files = o.highlight t.plainLineEnds ∧
      tokenize o.config.keywords t.plainLineEnds =
        (tokenize o.config.keywords t).map (Token.withPlainLineEnds t) ∧
      Highlighter.highlight o.config t.plainLineEnds =
        (Highlighter.highlight o.config t).map (Span.withPlainLineEnds t) ∧
      (o.highlightInput files = o.highlight t ↔
        ((∃ output, o.highlight t = .ok output) → ¬ o.format.ShowsLineEnds t)) := by
  have hinput := highlightInput_of_read hread hdecode
  refine ⟨hinput, tokenize_plainLineEnds _ t, highlight_plainLineEnds _ t, ?_⟩
  rw [hinput, highlight_plainLineEnds_eq_iff]

theorem highlightInput_crlf :
    let o := forFile "a".toList .json
    let files := Files.single "a".toList (Utf8.encode "a\r\nb".toList) (.set 1)
    files.read o.input = .ok (Utf8.encode "a\r\nb".toList) ∧
      Utf8.decode (Utf8.encode "a\r\nb".toList) = .ok "a\r\nb".toList ∧
      o.highlightInput files = o.highlight "a\nb".toList ∧
      (o.highlightInput files = o.highlight "a\r\nb".toList ↔
        ((∃ output, o.highlight "a\r\nb".toList = .ok output) →
          ¬ o.format.ShowsLineEnds "a\r\nb".toList)) := by
  intro o files
  have hread : files.read o.input = .ok (Utf8.encode "a\r\nb".toList) := rfl
  have hdecode : Utf8.decode (Utf8.encode "a\r\nb".toList) = .ok "a\r\nb".toList := rfl
  have h := highlightInput_eq_highlight_iff hread hdecode
  exact ⟨hread, hdecode, h.1, h.2.2.2⟩

/-- The output may not be the one for the text in the file. -/
theorem not_highlightInput_eq_highlight :
    ¬ ∀ (o : Options) (files : Files) (bytes : Bytes) (t : Text), o.debug = false →
      files.read o.input = .ok bytes → Utf8.decode bytes = .ok t →
        o.highlightInput files = o.highlight t := by
  intro h
  have hread : (Files.single "a".toList (Utf8.encode "a\r\nb".toList) (.set 1)).read
      (forFile "a".toList .json).input = .ok (Utf8.encode "a\r\nb".toList) := rfl
  have hdecode : Utf8.decode (Utf8.encode "a\r\nb".toList) = .ok "a\r\nb".toList := rfl
  have heq := h _ _ _ _ rfl hread hdecode
  rw [highlightInput_of_read hread hdecode] at heq
  exact (highlight_plainLineEnds_eq_iff _ _).mp heq ⟨_, rfl⟩ (by decide)

end Options

end Highlighter
