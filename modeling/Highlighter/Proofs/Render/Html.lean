import Highlighter.Proofs.Render.LineEnds
import Highlighter.Proofs.Span.Unique

/-!
Reading a page back. A reader takes elements and the runs of text between them off the page, one
after the other, and decodes what stands in them. It finds the spans that were written, with what
they cover, whatever the text looks like.
-/

set_option autoImplicit false

namespace Highlighter

namespace Html

/-- A piece of a page: text in an element of some class, or outside of elements. -/
structure Piece where
  classes : Option Text
  content : Text
  deriving DecidableEq, Repr

/-- The text that escaped text stands for. -/
def unescape : Text → Text
  | '&' :: 'a' :: 'm' :: 'p' :: ';' :: s => '&' :: unescape s
  | '&' :: 'l' :: 't' :: ';' :: s => '<' :: unescape s
  | '&' :: 'g' :: 't' :: ';' :: s => '>' :: unescape s
  | c :: s => c :: unescape s
  | [] => []

/-- The element at the front, and what comes behind it. The class goes on up to the next quote, the
content up to the next tag. -/
def readElement (s : Text) : Option (Piece × Text) := do
  let inside ← "<span class=\"".toList.isPrefixOf? s
  let content ← "\">".toList.isPrefixOf? (inside.dropWhile (· ≠ '"'))
  let rest ← "</span>".toList.isPrefixOf? (content.dropWhile (· ≠ '<'))
  return (⟨some (inside.takeWhile (· ≠ '"')), unescape (content.takeWhile (· ≠ '<'))⟩, rest)

/-- The run of text in front of the next tag, and what comes behind it. -/
def readRun (s : Text) : Option (Piece × Text) :=
  let run := s.takeWhile (· ≠ '<')
  if run = [] then none else some (⟨none, unescape run⟩, s.dropWhile (· ≠ '<'))

def readPiece (s : Text) : Option (Piece × Text) := (readElement s).or (readRun s)

section Length

variable {s rest : Text} {p : Piece}

theorem readElement_eq_some_iff : readElement s = some (p, rest) ↔
    ∃ inside content, "<span class=\"".toList ++ inside = s ∧
      "\">".toList ++ content = inside.dropWhile (· ≠ '"') ∧
      "</span>".toList ++ rest = content.dropWhile (· ≠ '<') ∧
      p = ⟨some (inside.takeWhile (· ≠ '"')), unescape (content.takeWhile (· ≠ '<'))⟩ := by
  simp only [readElement, Option.bind_eq_bind, Option.bind_eq_some_iff, Option.pure_def,
    Option.some.injEq, Prod.mk.injEq, List.isPrefixOf?_eq_some_iff_append_eq]
  constructor
  · rintro ⟨inside, hopen, content, hquote, rest', hclose, rfl, rfl⟩
    exact ⟨inside, content, hopen, hquote, hclose, rfl⟩
  · rintro ⟨inside, content, hopen, hquote, hclose, rfl⟩
    exact ⟨inside, hopen, content, hquote, rest, hclose, rfl, rfl⟩

theorem readElement_length (h : readElement s = some (p, rest)) : rest.length < s.length := by
  obtain ⟨inside, content, rfl, hquote, hclose, -⟩ := readElement_eq_some_iff.mp h
  have hquote := congrArg List.length hquote
  have hclose := congrArg List.length hclose
  have := (List.dropWhile_sublist (· ≠ '"') (l := inside)).length_le
  have := (List.dropWhile_sublist (· ≠ '<') (l := content)).length_le
  rw [List.length_append] at hquote hclose ⊢
  rw [show "</span>".toList.length = 7 from rfl] at hclose
  omega

theorem readRun_length (h : readRun s = some (p, rest)) : rest.length < s.length := by
  rw [readRun] at h
  split at h
  · cases h
  · rename_i hrun
    obtain ⟨-, rfl⟩ := Prod.mk.inj (Option.some.inj h)
    have hpos := List.length_pos_iff.mpr hrun
    have hsplit := congrArg List.length
      (List.takeWhile_append_dropWhile (p := (· ≠ '<')) (l := s))
    rw [List.length_append] at hsplit
    omega

theorem readPiece_length (h : readPiece s = some (p, rest)) : rest.length < s.length := by
  rw [readPiece, Option.or_eq_some_iff] at h
  rcases h with helement | ⟨-, hrun⟩
  · exact readElement_length helement
  · exact readRun_length hrun

end Length

/-- The pieces up to the end of the page. -/
def readPieces (s : Text) : Option (List Piece) :=
  match _h : readPiece s with
  | some (p, rest) => (readPieces rest).map (p :: ·)
  | none => if s = "</pre>\n".toList then some [] else none
termination_by s.length
decreasing_by exact readPiece_length _h

/-- The pieces of a page between the opening and the end of its one `pre` element. -/
def read (s : Text) : Option (List Piece) := do
  readPieces (← "<pre class=\"bithoven\">".toList.isPrefixOf? s)

/-- Neither of the brackets around markup. -/
def NoBracket (s : Text) : Prop := '<' ∉ s ∧ '>' ∉ s

instance (s : Text) : Decidable (NoBracket s) := inferInstanceAs (Decidable (_ ∧ _))

section Escape

variable {c : Char} {s t : Text}

theorem unescape_cons (h : c ≠ '&') (s : Text) : unescape (c :: s) = c :: unescape s := by
  conv => lhs; unfold unescape
  split
  all_goals simp_all

theorem unescape_escapeChar (c : Char) (s : Text) :
    unescape (escapeChar c ++ s) = c :: unescape s := by
  unfold escapeChar
  split
  · rfl
  · rfl
  · rfl
  · rename_i hamp _ _
    exact unescape_cons hamp s

theorem unescape_escape (t : Text) : unescape (escape t) = t := by
  induction t with
  | nil => rfl
  | cons c t ih =>
    rw [escape, List.flatMap_cons, unescape_escapeChar, ← escape, ih]

theorem noBracket_escapeChar (c : Char) : NoBracket (escapeChar c) := by
  unfold escapeChar
  split
  · decide
  · decide
  · decide
  · rename_i _ hlt hgt
    exact ⟨fun hmem => hlt (List.mem_singleton.mp hmem).symm,
      fun hmem => hgt (List.mem_singleton.mp hmem).symm⟩

theorem noBracket_escape (t : Text) : NoBracket (escape t) := by
  constructor
  · intro hmem
    obtain ⟨c, -, hc⟩ := List.mem_flatMap.mp hmem
    exact (noBracket_escapeChar c).1 hc
  · intro hmem
    obtain ⟨c, -, hc⟩ := List.mem_flatMap.mp hmem
    exact (noBracket_escapeChar c).2 hc

theorem not_mem_escape (t : Text) : '<' ∉ escape t := (noBracket_escape t).1

theorem escape_ne_nil (h : t ≠ []) : escape t ≠ [] := by
  intro hnil
  rw [← unescape_escape t, hnil] at h
  exact h rfl

/-- Escaped text does not start with a tag. -/
theorem head?_escape_append_ne (h : t ≠ []) (rest : Text) :
    (escape t ++ rest).head? ≠ some '<' := by
  intro hhead
  cases hescape : escape t with
  | nil => exact escape_ne_nil h hescape
  | cons c s =>
    rw [hescape, List.cons_append, List.head?_cons] at hhead
    have hmem : c ∈ escape t := by simp [hescape]
    exact not_mem_escape t (Option.some.inj hhead ▸ hmem)

end Escape

section Read

variable {classes before blank s t : Text} {rest : Text} {spans : List Span}

theorem takeWhile_ne_append {a : Char} {front : Text} (hfront : a ∉ front)
    (hrest : rest.head? = some a) :
    (front ++ rest).takeWhile (· ≠ a) = front ∧ (front ++ rest).dropWhile (· ≠ a) = rest := by
  have hne : ∀ c ∈ front, decide (c ≠ a) = true := by
    intro c hc
    exact decide_eq_true fun heq => hfront (heq ▸ hc)
  obtain ⟨behind, rfl⟩ := List.head?_eq_some_iff.mp hrest
  rw [List.takeWhile_append_of_pos hne, List.dropWhile_append_of_pos hne]
  simp

theorem head?_append_of_head? {a : Char} {front : Text} (h : front.head? = some a) (rest : Text) :
    (front ++ rest).head? = some a := by
  rw [List.head?_append, h, Option.some_or]

theorem openSpan_append (classes rest : Text) : openSpan classes ++ rest =
    "<span class=\"".toList ++ (classes ++ ("\">".toList ++ rest)) := by
  unfold openSpan
  exact (List.append_assoc _ _ _).trans (List.append_assoc _ _ _)

theorem head?_openSpan (classes : Text) : (openSpan classes).head? = some '<' := by
  unfold openSpan
  rw [List.append_assoc]
  exact head?_append_of_head? (by decide) _

theorem readElement_append (hclasses : '"' ∉ classes) (t rest : Text) :
    readElement (openSpan classes ++ (escape t ++ (closeSpan ++ rest))) =
      some (⟨some classes, t⟩, rest) := by
  have hquote := takeWhile_ne_append hclasses
    (head?_append_of_head? (show "\">".toList.head? = some '"' by decide)
      (escape t ++ (closeSpan ++ rest)))
  have hopen := takeWhile_ne_append (not_mem_escape t)
    (head?_append_of_head? (show closeSpan.head? = some '<' by decide) rest)
  refine readElement_eq_some_iff.mpr
    ⟨_, _, (openSpan_append _ _).symm, hquote.2.symm, hopen.2.symm, ?_⟩
  rw [hquote.1, hopen.1, unescape_escape]

theorem readElement_eq_none (h : s.head? ≠ some '<') : readElement s = none := by
  rw [Option.eq_none_iff_forall_not_mem]
  rintro ⟨p, rest⟩ hread
  obtain ⟨inside, content, rfl, -⟩ := readElement_eq_some_iff.mp hread
  exact h (head?_append_of_head? (show "<span class=\"".toList.head? = some '<' by decide) inside)

theorem readRun_append (ht : t ≠ []) (hrest : rest.head? = some '<') :
    readRun (escape t ++ rest) = some (⟨none, t⟩, rest) := by
  obtain ⟨htake, hdrop⟩ := takeWhile_ne_append (not_mem_escape t) hrest
  rw [readRun, htake, hdrop, if_neg (escape_ne_nil ht), unescape_escape]

theorem readPieces_of_readPiece {p : Piece} (h : readPiece s = some (p, rest)) :
    readPieces s = (readPieces rest).map (p :: ·) := by
  rw [readPieces]
  split
  · rename_i heq
    obtain ⟨rfl, rfl⟩ := Prod.mk.inj (Option.some.inj (heq.symm.trans h))
    rfl
  · rename_i heq
    rw [h] at heq
    cases heq

theorem read_openPre (s : Text) : read (openPre ++ s) = readPieces s := by
  have hopen : "<pre class=\"bithoven\">".toList.isPrefixOf? (openPre ++ s) = some s :=
    List.isPrefixOf?_eq_some_iff_append_eq.mpr rfl
  rw [read, hopen, Option.bind_eq_bind, Option.bind_some]

theorem readPieces_closePre : readPieces closePre = some [] := by
  have hnone : readPiece closePre = none := by decide
  rw [readPieces]
  split
  · rename_i heq
    rw [hnone] at heq
    cases heq
  · rfl

end Read

section Spans

variable {before blank t rest : Text} {s : Span} {spans : List Span}

/-- The piece of a page that a span is written as. -/
def piece (before blank : Text) (t : Text) (s : Span) : Piece :=
  ⟨if s.tag = blank then none else some (before ++ s.tag), t.slice s.start s.stop⟩

/-- The end of a run of text is seen by the tag behind it, the end of an element by its own. -/
theorem readPiece_renderSpan (hclass : '"' ∉ before ++ s.tag) (hslice : t.slice s.start s.stop ≠ [])
    (hrest : s.tag = blank → rest.head? = some '<') :
    readPiece (renderSpan before blank t s ++ rest) = some (piece before blank t s, rest) := by
  rw [readPiece, renderSpan, piece]
  by_cases hblank : s.tag = blank
  · rw [if_pos hblank, if_pos hblank, readElement_eq_none (head?_escape_append_ne hslice rest),
      readRun_append hslice (hrest hblank), Option.none_or]
  · rw [if_neg hblank, if_neg hblank, List.append_assoc, List.append_assoc,
      readElement_append hclass, Option.some_or]

theorem head?_of_isChain (hchain : (s :: spans).IsChain (·.tag ≠ ·.tag)) (hblank : s.tag = blank) :
    (spans.flatMap (renderSpan before blank t) ++ closePre).head? = some '<' := by
  cases spans with
  | nil => exact show closePre.head? = some '<' by decide
  | cons r spans =>
    have hne : r.tag ≠ blank := by
      rw [← hblank]
      exact (List.isChain_cons_cons.mp hchain).1.symm
    rw [List.flatMap_cons, renderSpan, if_neg hne]
    simp only [List.append_assoc]
    exact head?_append_of_head? (head?_openSpan _) _

theorem readPieces_render (hbefore : '"' ∉ before)
    (hspans : ∀ s ∈ spans, '"' ∉ s.tag ∧ t.slice s.start s.stop ≠ [])
    (hchain : spans.IsChain (·.tag ≠ ·.tag)) :
    readPieces (spans.flatMap (renderSpan before blank t) ++ closePre) =
      some (spans.map (piece before blank t)) := by
  induction spans with
  | nil => exact readPieces_closePre
  | cons s spans ih =>
    obtain ⟨htag, hslice⟩ := hspans s List.mem_cons_self
    have hclass : '"' ∉ before ++ s.tag := by
      rw [List.mem_append, not_or]
      exact ⟨hbefore, htag⟩
    have hread : readPiece (renderSpan before blank t s ++
        (spans.flatMap (renderSpan before blank t) ++ closePre)) =
          some (piece before blank t s, _) :=
      readPiece_renderSpan hclass hslice (head?_of_isChain hchain)
    have hmore := ih (fun r hr => hspans r (List.mem_cons_of_mem _ hr))
      (List.isChain_cons.mp hchain).2
    rw [List.flatMap_cons, List.append_assoc, readPieces_of_readPiece hread, hmore, Option.map_some,
      List.map_cons]

end Spans

end Html

/-- A span has the tag of a kind, and there is something that it covers. -/
theorem exists_kind_of_mem_highlight {c : Config} {t : Text} {s : Span} (h : s ∈ highlight c t) :
    (∃ kind, s.tag = c.tag kind) ∧ t.slice s.start s.stop ≠ [] := by
  have hfill := highlight_fill c t
  obtain ⟨hstart, hstop, hlt⟩ := hfill.bounds.2 s h
  constructor
  · obtain ⟨u, -, -, -, htag⟩ := (Span.exists_mem_ofTokens_iff c (tokenize_tiles c.keywords t)).mp
      ⟨s, h, Int.le_refl _, hlt, rfl⟩
    exact ⟨u.kind, htag.symm⟩
  · intro hnil
    have hlength := congrArg List.length hnil
    rw [Text.slice, List.length_drop, List.length_take, List.length_nil] at hlength
    omega

/-- Read back, the page of a text gives the spans in their order: an element of its class for every
span but those of the tag for blanks, which are bare runs, each with what the span covers. -/
theorem read_render_highlight (c : Config) (t before : Text) (hbefore : '"' ∉ before)
    (htags : ∀ kind, '"' ∉ c.tag kind) :
    let pieces := (highlight c t).map (Html.piece before (c.tag .whitespace) t)
    Html.read (Html.render before (c.tag .whitespace) t (highlight c t)) = some pieces ∧
      pieces.flatMap (·.content) = t := by
  intro pieces
  constructor
  · rw [Html.render, List.append_assoc, Html.read_openPre]
    refine Html.readPieces_render hbefore ?_ (highlight_isChain c t)
    intro s hs
    obtain ⟨⟨kind, hkind⟩, hslice⟩ := exists_kind_of_mem_highlight hs
    exact ⟨hkind ▸ htags kind, hslice⟩
  · rw [List.flatMap_map]
    exact flatMap_slice_highlight c t

/-- A string that looks like the end of its element, in front of a blank and a ready-made entity. -/
theorem read_render_highlight_markup :
    '"' ∉ Html.standardClass ∧ (∀ kind, '"' ∉ Config.standard.tag kind) ∧
      Html.read (Html.render Html.standardClass "whitespace".toList "\"</span>\" &lt".toList
        (highlight .standard "\"</span>\" &lt".toList)) =
          some [⟨some "bh-string-literal".toList, "\"</span>\"".toList⟩, ⟨none, " ".toList⟩,
            ⟨some "bh-unknown".toList, "&".toList⟩,
            ⟨some "bh-identifier".toList, "lt".toList⟩] := by
  have hclass : '"' ∉ Html.standardClass := by decide
  have htags : ∀ kind, '"' ∉ Config.standard.tag kind := by
    intro kind
    cases kind <;> decide
  refine ⟨hclass, htags, ?_⟩
  have hread := (read_render_highlight .standard "\"</span>\" &lt".toList _ hclass htags).1
  have hspans : (highlight .standard "\"</span>\" &lt".toList).map
      (Html.piece Html.standardClass "whitespace".toList "\"</span>\" &lt".toList) =
        [⟨some "bh-string-literal".toList, "\"</span>\"".toList⟩, ⟨none, " ".toList⟩,
          ⟨some "bh-unknown".toList, "&".toList⟩, ⟨some "bh-identifier".toList, "lt".toList⟩] := by
    decide +kernel
  exact hread.trans (congrArg some hspans)

end Highlighter
