import Highlighter.Proofs.Server.Texts

/-!
A server refines the plain map of its texts: message by message the map of the server's texts
becomes what the message makes of it, the answers are those of the map, and nothing fails. For this
every document has to be in step, for then its tokens are those of its text.
-/

set_option autoImplicit false

namespace Highlighter.Server

variable {s m next : Server} {uri : String}

/-- The map that a server stands for. -/
def texts (s : Server) : TextMap where
  entry := Option.map Document.text ∘ s.documents.get?
  workspace := (fun t => t.getD []) ∘ s.workspace.get?

theorem texts_putDocument (s : Server) (uri : String) (d : Document) :
    (s.putDocument uri d).texts = s.texts.put uri d.text := by
  rw [texts, putDocument, Entries.get?_put_eq_update, Function.comp_update]
  rfl

theorem texts_didClose (s : Server) (uri : String) :
    (s.didClose uri).texts =
      { s.texts with entry := Function.update s.texts.entry uri none } := by
  rw [texts, didClose, Entries.get?_erase_eq_update, Function.comp_update]
  rfl

theorem texts_putFile (s : Server) (uri : String) (t : Text) :
    (s.putFile uri t).texts =
      { s.texts with workspace := Function.update s.texts.workspace uri t } := by
  rw [texts, putFile, Entries.get?_put_eq_update, Function.comp_update]
  rfl

theorem texts_entry {d : Document} (h : s.documents.get? uri = some d) :
    s.texts.entry uri = some d.text := congrArg (Option.map Document.text) h

theorem texts_entry_eq_none (h : s.documents.get? uri = none) : s.texts.entry uri = none :=
  congrArg (Option.map Document.text) h

/-- A document as a server keeps it. -/
structure Holds (s : Server) (d : Document) : Prop where
  config_eq : d.config = s.config
  inStep : d.InStep

/-- What every server keeps. -/
def Sound (s : Server) : Prop := ∀ uri d, s.documents.get? uri = some d → s.Holds d

theorem holds_ofText (s : Server) (t : Text) : s.Holds (Document.ofText s.config t) :=
  ⟨rfl, Document.ofText_inStep _ t⟩

theorem Holds.withConfig {d : Document} (h : s.Holds d) (hconfig : next.config = s.config) :
    next.Holds d := ⟨h.config_eq.trans hconfig.symm, h.inStep⟩

/-- Changes leave a document in step, with the text that they leave of its text; they fail only if
one of them cannot be made. -/
theorem Holds.applyChanges {d : Document} (h : s.Holds d) (changes : List Change) :
    (∃ d', changes.foldlM applyChange d = .ok d' ∧ s.Holds d' ∧
      changes.foldlM Change.result? d.text = some d'.text) ∨
    (∃ err, changes.foldlM applyChange d = .error err ∧
      changes.foldlM Change.result? d.text = none) := by
  induction changes generalizing d with
  | nil => exact .inl ⟨d, rfl, h, rfl⟩
  | cons c changes ih =>
    rw [List.foldlM_cons, List.foldlM_cons, applyChange]
    by_cases hfit : (c.toEdit d.text).Fits d.text
    · obtain ⟨d', hd', hstep, hconfig, htext, -⟩ := h.inStep.applyEdit hfit
      rw [hd', Change.result?_of_fits hfit, ← htext]
      exact ih ⟨hconfig.trans h.config_eq, hstep⟩
    · obtain ⟨fault, hfault⟩ := Document.applyEdit_of_not_fits hfit
      rw [hfault, Change.result?_of_not_fits hfit]
      exact .inr ⟨_, rfl, rfl⟩

/-- A server becomes another that stands for `texts`; of its documents at most that of one file is
another one. -/
structure Becomes (s : Server) (uri : String) (texts : TextMap) (next : Server) : Prop where
  config_eq : next.config = s.config
  texts_eq : next.texts = texts
  sound : next.Sound
  others : ∀ other, other ≠ uri → next.documents.get? other = s.documents.get? other

theorem Becomes.trans {t u : TextMap} (h : s.Becomes uri t m) (h' : m.Becomes uri u next) :
    s.Becomes uri u next where
  config_eq := h'.config_eq.trans h.config_eq
  texts_eq := h'.texts_eq
  sound := h'.sound
  others := fun other hne => (h'.others other hne).trans (h.others other hne)

namespace Sound

theorem putDocument (h : s.Sound) {d : Document} (hd : s.Holds d) (uri : String) :
    s.Becomes uri (s.texts.put uri d.text) (s.putDocument uri d) where
  config_eq := rfl
  texts_eq := texts_putDocument s uri d
  sound := by
    intro other e he
    rw [Server.putDocument, Entries.get?_put] at he
    split at he
    · obtain rfl := Option.some.inj he
      exact hd.withConfig rfl
    · exact (h other e he).withConfig rfl
  others := by
    intro other hne
    rw [Server.putDocument, Entries.get?_put, if_neg hne.symm]

theorem putFile (h : s.Sound) (uri : String) (t : Text) :
    s.Becomes uri { s.texts with workspace := Function.update s.texts.workspace uri t }
      (s.putFile uri t) where
  config_eq := rfl
  texts_eq := texts_putFile s uri t
  sound := fun other d hd => (h other d hd).withConfig rfl
  others := fun _ _ => rfl

theorem didClose (h : s.Sound) (uri : String) :
    s.Becomes uri { s.texts with entry := Function.update s.texts.entry uri none }
      (s.didClose uri) where
  config_eq := rfl
  texts_eq := texts_didClose s uri
  sound := by
    intro other d hd
    rw [Server.didClose, Entries.get?_erase] at hd
    split at hd
    · cases hd
    · exact (h other d hd).withConfig rfl
  others := by
    intro other hne
    rw [Server.didClose, Entries.get?_erase, if_neg hne.symm]

/-- A file that is not known is loaded, with the text that the workspace has for it. -/
theorem load (h : s.Sound) (uri : String) :
    s.Becomes uri (s.texts.put uri (s.texts.workspace uri)) (s.putDocument uri (s.load uri)) :=
  h.putDocument (holds_ofText s _) uri

theorem didChange (h : s.Sound) (uri : String) (changes : List Change) :
    s.Becomes uri (s.texts.put uri (s.texts.changed uri changes)) (s.didChange uri changes).1 := by
  rw [Server.didChange, TextMap.changed]
  cases huri : s.documents.get? uri with
  | none =>
    rw [texts_entry_eq_none huri]
    exact h.load uri
  | some d =>
    have hd := h uri d huri
    rw [texts_entry huri]
    dsimp only
    rcases hd.applyChanges changes with ⟨d', hd', hholds, htext⟩ | ⟨err, herr, htext⟩
    · rw [hd', htext]
      exact h.putDocument hholds uri
    · rw [herr, htext]
      exact h.load uri

/-- The document of a file, loaded if need be, has the text that the map has for the file. -/
theorem document (h : s.Sound) (uri : String) :
    ∃ d next, s.document uri = (d, next) ∧ s.Holds d ∧ d.text = s.texts.text uri ∧
      s.Becomes uri (s.texts.put uri (s.texts.text uri)) next := by
  rw [Server.document, TextMap.text]
  cases huri : s.documents.get? uri with
  | none =>
    rw [texts_entry_eq_none huri]
    exact ⟨_, _, rfl, holds_ofText s _, rfl, h.load uri⟩
  | some d =>
    rw [texts_entry huri]
    refine ⟨d, s, rfl, h uri d huri, rfl, rfl, ?_, h, fun _ _ => rfl⟩
    rw [Option.getD_some, TextMap.put, ← texts_entry huri, Function.update_eq_self]

theorem semanticTokens (h : s.Sound) (uri : String) :
    ∃ next events, s.semanticTokens uri = .ok (encodeSemanticTokens (s.texts.text uri)
        (highlight s.config (s.texts.text uri)) s.config.visibleTagNames, next, events) ∧
      s.Becomes uri (s.texts.put uri (s.texts.text uri)) next := by
  obtain ⟨d, loaded, hdocument, hholds, htext, hloaded⟩ := h.document uri
  obtain ⟨d', events, hrefresh, hd'⟩ := hholds.inStep.refresh
  have hput : loaded.Holds d' :=
    ⟨hd'.config_eq.trans (hholds.config_eq.trans hloaded.config_eq.symm), hd'.inStep⟩
  have htext' : d'.text = s.texts.text uri := hd'.text_eq.trans htext
  have hspans : d'.spans = highlight s.config (s.texts.text uri) := by
    rw [hd'.spans_eq, hholds.config_eq, htext]
  have hlegend : loaded.legend = s.config.visibleTagNames := by
    rw [legend, hloaded.config_eq]
  refine ⟨loaded.putDocument uri d', events, ?_, ?_⟩
  · rw [Server.semanticTokens, hdocument]
    dsimp only
    rw [hrefresh, ← hspans, ← hlegend, ← htext']
    rfl
  · have hnext := hloaded.sound.putDocument hput uri
    rw [hloaded.texts_eq, htext', TextMap.put_put] at hnext
    exact hloaded.trans hnext

/-- One message: the map becomes what the message makes of it, and the answer is that of the map. -/
theorem handle (h : s.Sound) (msg : Message) :
    ∃ next, s.handle msg = .ok (next, (s.texts.handle s.config msg).2) ∧
      s.Becomes msg.uri (s.texts.handle s.config msg).1 next := by
  cases msg with
  | stored uri t => exact ⟨_, rfl, h.putFile uri t⟩
  | opened uri t => exact ⟨_, rfl, h.putDocument (holds_ofText s t) uri⟩
  | changed uri changes => exact ⟨_, rfl, h.didChange uri changes⟩
  | closed uri => exact ⟨_, rfl, h.didClose uri⟩
  | tokens uri =>
    obtain ⟨next, events, hnext, hbecomes⟩ := h.semanticTokens uri
    refine ⟨next, ?_, hbecomes⟩
    rw [Server.handle, hnext]
    rfl

/-- Any messages, one after the other. -/
theorem serve (h : s.Sound) (msgs : List Message) :
    ∃ next, s.serve msgs = .ok (next, (s.texts.serve s.config msgs).2) ∧
      next.texts = (s.texts.serve s.config msgs).1 ∧ next.Sound := by
  induction msgs generalizing s with
  | nil => exact ⟨s, rfl, rfl, h⟩
  | cons msg msgs ih =>
    obtain ⟨m, hm, hbecomes⟩ := h.handle msg
    obtain ⟨next, hnext, htexts, hsound⟩ := ih hbecomes.sound
    rw [hbecomes.config_eq, hbecomes.texts_eq] at hnext htexts
    refine ⟨next, ?_, htexts, hsound⟩
    rw [Server.serve, hm]
    dsimp only [bind, Except.bind]
    rw [hnext]
    rfl

end Sound

/-- A server in which no file is open yet refines the plain map in which no file has an entry:
whatever comes in, nothing fails, the answers are those of the map, and the texts of the documents
are its entries. A message never touches the document of another file. -/
theorem serve_refines_textMap (config : Config) (workspace : Entries String Text)
    (msgs : List Message) :
    let start : TextMap := ⟨fun _ => none, fun uri => (workspace.get? uri).getD []⟩
    ∃ s, Server.serve { config, workspace } msgs = .ok (s, (start.serve config msgs).2) ∧
      s.texts = (start.serve config msgs).1 ∧
      ∀ msg, ∃ next answer, s.handle msg = .ok (next, answer) ∧
        ∀ uri, uri ≠ msg.uri → next.documents.get? uri = s.documents.get? uri := by
  intro start
  have hstart : Sound { config, workspace } := by
    intro uri d hd
    cases hd
  obtain ⟨s, hs, htexts, hsound⟩ := hstart.serve msgs
  refine ⟨s, hs, htexts, ?_⟩
  intro msg
  obtain ⟨next, hnext, hbecomes⟩ := hsound.handle msg
  exact ⟨next, _, hnext, hbecomes.others⟩

end Highlighter.Server
