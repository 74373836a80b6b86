import Highlighter.Proofs.Keywords.Accepted
import Highlighter.Proofs.Render.Html
import Mathlib.Data.List.TakeWhile

/-!
What the tags of a configuration do to a page. The text of a page is escaped, the tags are not, and
a configuration may rename them to every text without blanks. A tag with an angle bracket adds
markup to the page, and a tag with a quote ends its class early; no other tag does.
-/

set_option autoImplicit false

namespace Highlighter

section Tags

variable {data : Table} {c : Config}

theorem Kind.isTag_tag (kind : Kind) : isTag kind.tag = true := by
  cases kind <;> decide

theorem Config.isTag_of_readTag {entry : Text × Setting} {kind : Kind} {tag : Text}
    (h : readTag entry = .ok (kind, tag)) : isTag tag = true := by
  obtain ⟨kind', -, h⟩ := exists_of_bind_eq_ok h
  split at h
  · split at h
    · rename_i htag
      cases h
      exact htag
    · cases h
  · cases h

/-- Every tag of a configuration that is accepted has passed the test for tags. -/
theorem Config.isTag_of_ofTable (h : Config.ofTable data = .ok c) (kind : Kind) :
    isTag (c.tag kind) = true := by
  obtain ⟨entries, -, h⟩ := exists_of_bind_eq_ok h
  obtain ⟨words, -, h⟩ := exists_of_bind_eq_ok h
  obtain ⟨keywords, -, h⟩ := exists_of_bind_eq_ok h
  obtain ⟨entries, -, h⟩ := exists_of_bind_eq_ok h
  obtain ⟨tags, htags, h⟩ := exists_of_bind_eq_ok h
  obtain rfl := Except.ok.inj h
  change isTag ((Entries.get? tags kind).getD kind.tag) = true
  cases hget : Entries.get? tags kind with
  | none => exact kind.isTag_tag
  | some tag =>
    obtain ⟨entry, -, hentry⟩ := exists_of_mem_mapM htags (Entries.mem_of_get? hget)
    exact isTag_of_readTag hentry

theorem not_mem_of_isTag {tag : Text} (h : isTag tag = true) : ' ' ∉ tag := by
  intro hmem
  have hblank : tag.any isBlank = true := List.any_eq_true.mpr ⟨' ', hmem, by decide⟩
  simp [isTag, hblank] at h

end Tags

namespace Html

/-- The markup of a text, given the part of it that stands in the bracket that is open, if one is:
what each pair of brackets encloses. There is none if the brackets do not come in pairs. -/
def markupFrom : Option Text → Text → Option (List Text)
  | none, [] => some []
  | some _, [] => none
  | none, c :: s =>
    if c = '<' then markupFrom (some []) s
    else if c = '>' then none
    else markupFrom none s
  | some inside, c :: s =>
    if c = '<' then none
    else if c = '>' then (markupFrom none s).map (inside :: ·)
    else markupFrom (some (inside ++ [c])) s

def markup (s : Text) : Option (List Text) := markupFrom none s

/-- The classes of the `span` elements, each read up to the next quote. -/
def classes : Text → List Text
  | [] => []
  | c :: s =>
    match "<span class=\"".toList.isPrefixOf? (c :: s) with
    | some inside => inside.takeWhile (· ≠ '"') :: classes s
    | none => classes s

/-- The start of a `span` element of some classes, without its brackets. -/
def spanTag (classes : Text) : Text := "span class=\"".toList ++ classes ++ ['"']

/-- The markup of a page: one `pre` element, in it one `span` element after the other. -/
def frame (classes : List Text) : List Text :=
  "pre class=\"bithoven\"".toList ::
    (classes.flatMap fun names => [spanTag names, "/span".toList]) ++ ["/pre".toList]

section Markup

variable {s t rest : Text} {inside : Option Text} {l : List Text}

theorem noBracket_append : NoBracket (s ++ t) ↔ NoBracket s ∧ NoBracket t := by
  simp only [NoBracket, List.mem_append, not_or]
  tauto

theorem noBracket_cons {c : Char} :
    NoBracket (c :: s) ↔ (c ≠ '<' ∧ c ≠ '>') ∧ NoBracket s := by
  simp only [NoBracket, List.mem_cons, not_or, ne_eq, eq_comm]
  tauto

theorem markupFrom_none_append (h : NoBracket s) (rest : Text) :
    markupFrom none (s ++ rest) = markupFrom none rest := by
  induction s with
  | nil => rfl
  | cons c s ih =>
    obtain ⟨⟨hlt, hgt⟩, h⟩ := noBracket_cons.mp h
    rw [List.cons_append, markupFrom, if_neg hlt, if_neg hgt, ih h]

theorem markupFrom_some_append (h : NoBracket s) (inside rest : Text) :
    markupFrom (some inside) (s ++ rest) = markupFrom (some (inside ++ s)) rest := by
  induction s generalizing inside with
  | nil => rw [List.nil_append, List.append_nil]
  | cons c s ih =>
    obtain ⟨⟨hlt, hgt⟩, h⟩ := noBracket_cons.mp h
    rw [List.cons_append, markupFrom, if_neg hlt, if_neg hgt, ih h, List.append_assoc,
      List.singleton_append]

theorem markupFrom_bracket (h : NoBracket s) (rest : Text) :
    markupFrom none ('<' :: (s ++ '>' :: rest)) = (markupFrom none rest).map (s :: ·) := by
  rw [markupFrom, if_pos rfl, markupFrom_some_append h, markupFrom, if_neg (by decide), if_pos rfl,
    List.nil_append]

/-- No markup has a bracket in it. -/
theorem noBracket_of_mem_markupFrom (hinside : ∀ i ∈ inside, NoBracket i)
    (h : markupFrom inside s = some l) {m : Text} (hm : m ∈ l) : NoBracket m := by
  induction s generalizing inside l with
  | nil =>
    cases inside with
    | none =>
      obtain rfl : [] = l := Option.some.inj h
      cases hm
    | some i => cases h
  | cons c s ih =>
    cases inside with
    | none =>
      rw [markupFrom] at h
      split at h
      · exact ih (by simp [NoBracket]) h hm
      · split at h
        · cases h
        · exact ih hinside h hm
    | some i =>
      have hi := hinside i rfl
      rw [markupFrom] at h
      split at h
      · cases h
      · rename_i hlt
        split at h
        · obtain ⟨l', hl', rfl⟩ := Option.map_eq_some_iff.mp h
          rcases List.mem_cons.mp hm with rfl | hm
          · exact hi
          · exact ih (by simp) hl' hm
        · rename_i hgt
          -- What is in the open bracket grows by characters that are no brackets only.
          refine ih ?_ h hm
          intro j hj
          obtain rfl := Option.some.inj hj
          exact noBracket_append.mpr ⟨hi, noBracket_cons.mpr ⟨⟨hlt, hgt⟩, by simp [NoBracket]⟩⟩

end Markup

section Classes

variable {s rest : Text}

theorem classes_cons_of_ne {c : Char} (h : c ≠ '<') (s : Text) : classes (c :: s) = classes s := by
  have hnone : "<span class=\"".toList.isPrefixOf? (c :: s) = none := by
    simp [List.isPrefixOf?, h.symm]
  rw [classes, hnone]

theorem classes_append_of_not_mem (h : '<' ∉ s) (rest : Text) :
    classes (s ++ rest) = classes rest := by
  induction s with
  | nil => rfl
  | cons c s ih =>
    rw [List.mem_cons, not_or] at h
    rw [List.cons_append, classes_cons_of_ne (Ne.symm h.1), ih h.2]

theorem takeWhile_append_quote (s rest : Text) :
    (s ++ '"' :: rest).takeWhile (· ≠ '"') = s.takeWhile (· ≠ '"') := by
  rw [List.takeWhile_append, List.takeWhile_cons_of_neg (by decide), List.append_nil]
  split
  · rename_i hlength
    exact ((List.takeWhile_prefix _).eq_of_length hlength).symm
  · rfl

/-- No element starts in a run without blanks that ends in front of a quote: the start of an
element has a blank in front of its first quote. -/
theorem classes_append_quote (h : ' ' ∉ s) (rest : Text) :
    classes (s ++ '"' :: rest) = classes rest := by
  induction s with
  | nil => exact classes_cons_of_ne (by decide) rest
  | cons c s ih =>
    have hnone : "<span class=\"".toList.isPrefixOf? (c :: s ++ '"' :: rest) = none := by
      rw [Option.eq_none_iff_forall_ne_some]
      intro inside hprefix
      have heq := congrArg (List.takeWhile (· ≠ '"'))
        (List.isPrefixOf?_eq_some_iff_append_eq.mp hprefix)
      rw [show "<span class=\"".toList ++ inside = "<span class=".toList ++ '"' :: inside from rfl,
        takeWhile_append_quote, takeWhile_append_quote] at heq
      have hblank : ' ' ∈ (c :: s).takeWhile (· ≠ '"') := heq ▸ (by decide)
      exact h ((List.takeWhile_prefix _).subset hblank)
    rw [List.cons_append] at hnone ⊢
    rw [classes, hnone]
    exact ih fun hmem => h (List.mem_cons_of_mem c hmem)

/-- A class without blanks is read up to its first quote. -/
theorem classes_openSpan (h : ' ' ∉ s) (rest : Text) :
    classes (openSpan s ++ rest) = s.takeWhile (· ≠ '"') :: classes rest := by
  have hprefix : "<span class=\"".toList.isPrefixOf? (openSpan s ++ rest) =
      some (s ++ '"' :: '>' :: rest) :=
    List.isPrefixOf?_eq_some_iff_append_eq.mpr (openSpan_append s rest).symm
  have hcons : openSpan s ++ rest =
      '<' :: ("span class=\"".toList ++ (s ++ '"' :: '>' :: rest)) := openSpan_append s rest
  rw [hcons] at hprefix ⊢
  rw [classes, hprefix]
  dsimp only
  rw [takeWhile_append_quote, classes_append_of_not_mem (by decide), classes_append_quote h,
    classes_cons_of_ne (by decide)]

theorem classes_closeSpan (rest : Text) : classes (closeSpan ++ rest) = classes rest := rfl

theorem classes_openPre (rest : Text) : classes (openPre ++ rest) = classes rest := rfl

end Classes

section Page

variable {before blank t : Text} {s : Span} {spans : List Span}

/-- The spans that a page has elements for. -/
def elements (blank : Text) (spans : List Span) : List Span := spans.filter (·.tag ≠ blank)

theorem elements_cons_of_eq (h : s.tag = blank) : elements blank (s :: spans) =
    elements blank spans := by
  simp [elements, h]

theorem elements_cons_of_ne (h : s.tag ≠ blank) : elements blank (s :: spans) =
    s :: elements blank spans := by
  simp [elements, h]

theorem noBracket_spanTag {names : Text} : NoBracket (spanTag names) ↔ NoBracket names := by
  unfold spanTag
  rw [noBracket_append, noBracket_append]
  constructor
  · intro h
    exact h.1.2
  · intro h
    exact ⟨⟨by decide, h⟩, by decide⟩

theorem openSpan_eq_cons (names rest : Text) :
    openSpan names ++ rest = '<' :: (spanTag names ++ '>' :: rest) := by
  unfold spanTag
  rw [openSpan_append, List.append_assoc, List.append_assoc]
  rfl

theorem markupFrom_element (h : NoBracket s.tag) (hbefore : NoBracket before) (t rest : Text) :
    markupFrom none (openSpan (before ++ s.tag) ++ (escape t ++ (closeSpan ++ rest))) =
      (markupFrom none rest).map fun l =>
        spanTag (before ++ s.tag) :: "/span".toList :: l := by
  have hopen : NoBracket (spanTag (before ++ s.tag)) :=
    noBracket_spanTag.mpr (noBracket_append.mpr ⟨hbefore, h⟩)
  have hclose : NoBracket "/span".toList := by decide
  have hend : closeSpan ++ rest = '<' :: ("/span".toList ++ '>' :: rest) := rfl
  rw [openSpan_eq_cons, hend, markupFrom_bracket hopen, markupFrom_none_append (noBracket_escape t),
    markupFrom_bracket hclose, Option.map_map]
  rfl

theorem markupFrom_spans (hbefore : NoBracket before)
    (h : ∀ s ∈ elements blank spans, NoBracket s.tag) :
    markupFrom none (spans.flatMap (renderSpan before blank t) ++ closePre) =
      some ((((elements blank spans).map (before ++ ·.tag)).flatMap fun names =>
        [spanTag names, "/span".toList]) ++ ["/pre".toList]) := by
  induction spans with
  | nil => rfl
  | cons s spans ih =>
    rw [List.flatMap_cons, List.append_assoc, renderSpan]
    by_cases hblank : s.tag = blank
    · rw [elements_cons_of_eq hblank] at h ⊢
      rw [if_pos hblank, markupFrom_none_append (noBracket_escape _), ih h]
    · rw [elements_cons_of_ne hblank] at h ⊢
      rw [if_neg hblank, List.append_assoc, List.append_assoc,
        markupFrom_element (h s List.mem_cons_self) hbefore,
        ih fun r hr => h r (List.mem_cons_of_mem s hr)]
      rfl

/-- As long as no tag has a bracket in it, the markup of a page is that of its elements. -/
theorem markup_render (hbefore : NoBracket before)
    (h : ∀ s ∈ elements blank spans, NoBracket s.tag) :
    markup (render before blank t spans) =
      some (frame ((elements blank spans).map (before ++ ·.tag))) := by
  have hopen : NoBracket "pre class=\"bithoven\"".toList := by decide
  have hfront : render before blank t spans = '<' :: ("pre class=\"bithoven\"".toList ++
      '>' :: (spans.flatMap (renderSpan before blank t) ++ closePre)) := by
    rw [render, List.append_assoc]
    rfl
  rw [markup, hfront, markupFrom_bracket hopen, markupFrom_spans hbefore h]
  rfl

theorem classes_render (hbefore : ' ' ∉ before) (h : ∀ s ∈ elements blank spans, ' ' ∉ s.tag) :
    classes (render before blank t spans) =
      (elements blank spans).map fun s => (before ++ s.tag).takeWhile (· ≠ '"') := by
  rw [render, List.append_assoc, classes_openPre]
  induction spans with
  | nil => rfl
  | cons s spans ih =>
    rw [List.flatMap_cons, List.append_assoc, renderSpan]
    by_cases hblank : s.tag = blank
    · rw [elements_cons_of_eq hblank] at h ⊢
      rw [if_pos hblank, classes_append_of_not_mem (not_mem_escape _), ih h]
    · rw [elements_cons_of_ne hblank] at h ⊢
      have hnames : ' ' ∉ before ++ s.tag := by
        rw [List.mem_append, not_or]
        exact ⟨hbefore, h s List.mem_cons_self⟩
      rw [if_neg hblank, List.append_assoc, List.append_assoc, classes_openSpan hnames,
        classes_append_of_not_mem (not_mem_escape _), classes_closeSpan,
        ih fun r hr => h r (List.mem_cons_of_mem s hr), List.map_cons]

theorem mem_frame {names : Text} {classes : List Text} (h : names ∈ classes) :
    spanTag names ∈ frame classes := by
  unfold frame
  apply List.mem_cons_of_mem
  apply List.mem_append_left
  exact List.mem_flatMap.mpr ⟨names, h, List.mem_cons_self⟩

theorem takeWhile_ne_eq_self_iff {a : Char} {s : Text} :
    s.takeWhile (· ≠ a) = s ↔ a ∉ s := by
  rw [List.takeWhile_eq_self_iff]
  simp only [decide_eq_true_eq]
  constructor
  · intro h hmem
    exact h a hmem rfl
  · intro h c hc heq
    exact h (heq ▸ hc)

end Page

end Html

/-- The page of a text under a configuration that is accepted. Its markup is that of its elements if
and only if no element has a tag with a bracket. Each class is read as far as the tag has no quote,
so as the tag itself if and only if the tag has none. -/
theorem markup_render_iff {data : Table} {c : Config} (h : Config.ofTable data = .ok c)
    (theme : Theme) (t : Text) :
    let shown := Html.elements (c.tag .whitespace) (highlight c t)
    let names := shown.map (Html.standardClass ++ ·.tag)
    ∃ page, render .html c theme t (tokenize c.keywords t) = .ok page ∧
      (Html.markup page = some (Html.frame names) ↔ ∀ s ∈ shown, '<' ∉ s.tag ∧ '>' ∉ s.tag) ∧
      Html.classes page = shown.map (fun s =>
        (Html.standardClass ++ s.tag).takeWhile (· ≠ '"')) ∧
      (Html.classes page = names ↔ ∀ s ∈ shown, '"' ∉ s.tag) := by
  intro shown names
  have hblank : ∀ s ∈ shown, ' ' ∉ s.tag := by
    intro s hs
    obtain ⟨⟨kind, hkind⟩, -⟩ := exists_kind_of_mem_highlight (List.mem_of_mem_filter hs)
    rw [hkind]
    exact not_mem_of_isTag (Config.isTag_of_ofTable h kind)
  have hclasses := Html.classes_render (t := t) (show ' ' ∉ Html.standardClass by decide) hblank
  refine ⟨Html.render Html.standardClass (c.tag .whitespace) t (highlight c t), rfl, ⟨?_, ?_⟩,
    hclasses, ?_⟩
  · intro hmarkup s hs
    have hmem : Html.spanTag (Html.standardClass ++ s.tag) ∈ Html.frame names :=
      Html.mem_frame (List.mem_map_of_mem hs)
    have hplain := Html.noBracket_of_mem_markupFrom (by simp) hmarkup hmem
    exact (Html.noBracket_append.mp (Html.noBracket_spanTag.mp hplain)).2
  · intro hplain
    exact Html.markup_render (by decide) hplain
  · rw [hclasses, List.map_inj_left]
    apply forall₂_congr
    intro s _
    rw [Html.takeWhile_ne_eq_self_iff, List.mem_append, not_or]
    exact and_iff_right (by decide)

/-- A tag that a page can hold, although text in its place is escaped. -/
theorem markup_render_iff_renamed :
    let data : Table := [("tags".toList, .table [("identifier".toList, .str "x&y".toList)])]
    ∃ c, Config.ofTable data = .ok c ∧
      let shown := Html.elements (c.tag .whitespace) (highlight c "a <".toList)
      let names := shown.map (Html.standardClass ++ ·.tag)
      ∃ page, render .html c [] "a <".toList (tokenize c.keywords "a <".toList) = .ok page ∧
        (Html.markup page = some (Html.frame names) ↔ ∀ s ∈ shown, '<' ∉ s.tag ∧ '>' ∉ s.tag) ∧
        Html.classes page = shown.map (fun s =>
          (Html.standardClass ++ s.tag).takeWhile (· ≠ '"')) ∧
        (Html.classes page = names ↔ ∀ s ∈ shown, '"' ∉ s.tag) := by
  intro data
  have hok : (Config.ofTable data).isOk = true := by decide +kernel
  cases hdata : Config.ofTable data with
  | error fault =>
    rw [hdata] at hok
    cases hok
  | ok c => exact ⟨c, rfl, markup_render_iff hdata [] "a <".toList⟩

/-- A tag that ends its class and its element, and starts another one. -/
theorem exists_markup_injected : ∃ (data : Table) (c : Config) (t page : Text),
    Config.ofTable data = .ok c ∧ render .html c [] t (tokenize c.keywords t) = .ok page ∧
      let names := (Html.elements (c.tag .whitespace) (highlight c t)).map
        (Html.standardClass ++ ·.tag)
      Html.markup page ≠ some (Html.frame names) ∧ Html.classes page ≠ names := by
  let data : Table :=
    [("tags".toList, .table [("identifier".toList, .str "\"></span><span/class=\"x".toList)])]
  let page : Text :=
    "<pre class=\"bithoven\"><span class=\"bh-\"></span><span/class=\"x\">a</span></pre>\n".toList
  let names : List Text := ["bh-\"></span><span/class=\"x".toList]
  have hnames : (Config.ofTable data).toOption.map (fun c =>
      (Html.elements (c.tag .whitespace) (highlight c "a".toList)).map
        (Html.standardClass ++ ·.tag)) = some names := by
    decide +kernel
  have hpage : (Config.ofTable data).toOption.map (fun c =>
      Html.render Html.standardClass (c.tag .whitespace) "a".toList (highlight c "a".toList)) =
        some page := by
    decide +kernel
  have hmarkup : Html.markup page ≠ some (Html.frame names) := by decide +kernel
  have hclasses : Html.classes page ≠ names := by decide +kernel
  cases hdata : Config.ofTable data with
  | error fault =>
    rw [hdata] at hnames
    cases hnames
  | ok c =>
    rw [hdata] at hnames hpage
    refine ⟨data, c, "a".toList, page, hdata, congrArg Except.ok (Option.some.inj hpage), ?_⟩
    intro found
    rw [show found = names from Option.some.inj hnames]
    exact ⟨hmarkup, hclasses⟩

end Highlighter
