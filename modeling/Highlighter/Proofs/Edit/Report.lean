import Highlighter.Edit.Report
import Highlighter.Proofs.Edit.Basic
import Highlighter.Proofs.LineIndex.Columns
import Highlighter.Proofs.Render.Numbers

/-!
Reports of edits that do not fit. A report has five lines. The fourth has the number of the line in
question and that line of the text; the caret in the fifth stands under the place that the report
points at.
-/

set_option autoImplicit false

namespace Highlighter

/-- No character of the text ends a line. -/
def Text.Unbroken (t : Text) : Prop := ∀ c ∈ t, isLineEnd c = false

instance (t : Text) : Decidable t.Unbroken := List.decidableBAll _ t

namespace Text

variable {s t : Text}

@[simp] theorem unbroken_append_iff : Unbroken (s ++ t) ↔ s.Unbroken ∧ t.Unbroken := by
  simp only [Unbroken, List.mem_append, or_imp, forall_and]

@[simp] theorem unbroken_cons_iff {c : Char} :
    Unbroken (c :: t) ↔ isLineEnd c = false ∧ t.Unbroken := by
  simp only [Unbroken, List.mem_cons, forall_eq_or_imp]

theorem unbroken_replicate (n : Nat) : Unbroken (List.replicate n ' ') := by
  intro c hc
  rw [(List.mem_replicate.mp hc).2]
  rfl

theorem unbroken_toString_int (n : Int) : Unbroken (toString n).toList := by
  intro c hc
  rcases of_mem_toString_int hc with rfl | hdigit
  · rfl
  · rw [Bool.eq_false_iff]
    intro hend
    rw [isLineEnd, Bool.or_eq_true, beq_iff_eq, beq_iff_eq] at hend
    rcases hend with rfl | rfl
    · cases hdigit
    · cases hdigit

theorem unbroken_toString (n : Nat) : Unbroken (toString n).toList :=
  unbroken_toString_int n

theorem unbroken_of_mem_lines {l : Text} (h : l ∈ t.lines) : l.Unbroken := by
  rw [lines_eq_map] at h
  obtain ⟨start, -, rfl⟩ := List.mem_map.mp h
  intro c hc
  simpa using List.all_eq_true.mp List.all_takeWhile c hc

end Text

theorem EditFault.unbroken_message (f : EditFault) : Text.Unbroken f.message.toList := by
  have hnumber : ∀ n : Int, Text.Unbroken (toString n).toList := Text.unbroken_toString_int
  cases f
  all_goals
    simp only [message, String.toList_append, Text.unbroken_append_iff, hnumber, and_true]
    decide

/-- Line `line`, counted from zero, lies from `start` to `stop`, and `i` is a place in it or its
end. -/
structure LiesIn (t : Text) (line start stop i : Nat) : Prop where
  bounds_eq : (LineIndex.ofText t).bounds? line = some (start, stop)
  lines_eq : t.lines[line]? = some (t.slice start stop)
  start_le : start ≤ i
  le_stop : i ≤ stop
  stop_iff : i = stop ↔ i = t.length ∨ ∃ c, t[i]? = some c ∧ isLineEnd c = true

/-- The place that a report points at. An offset outside the text is moved to its nearer end, and
between a carriage return and its line feed the next line has begun already. -/
def PointsAt (t : Text) (offset : Int) (start i : Nat) : Prop :=
  let place := min offset.toNat t.length
  ¬ InsidePair t place ∧ i = place ∨ InsidePair t place ∧ i = place + 1 ∧ start = i

section Places

open LineIndex

variable {t : Text} {line start stop i : Nat}

theorem liesIn_of_start (hstart : (ofText t).starts[line]? = some start) (hi : start ≤ i)
    (hlength : i ≤ t.length) (hnext : ∀ next, (ofText t).starts[line + 1]? = some next → i < next)
    (hno : ¬ InsidePair t i) : ∃ stop, LiesIn t line start stop i := by
  obtain ⟨stop, hbounds⟩ := exists_bounds? hstart
  have hline := isLine_of_bounds? hbounds
  have hstop := (hline.le_stop_iff hi hlength hnext).mpr hno
  refine ⟨stop, hbounds, getElem?_lines hbounds, hi, hstop, ?_⟩
  constructor
  · rintro rfl
    cases hsome : (ofText t).starts[line + 1]? with
    | none => exact .inl (hline.last hsome)
    | some next => exact .inr (hline.ends next hsome i (Nat.le_refl _) (hnext next hsome))
  · rintro (hend | ⟨c, hc, hend⟩)
    · have := hline.stop_le_length
      omega
    · refine Nat.le_antisymm hstop (Nat.le_of_not_lt fun hlt => ?_)
      obtain ⟨d, hd, hplain⟩ := hline.plain i hi hlt
      obtain rfl := Option.some.inj (hc.symm.trans hd)
      rw [hend] at hplain
      cases hplain

theorem lineColumn_clamp (t : Text) (offset : Int) :
    t.lineColumn offset = t.lineColumn (min offset.toNat t.length : Nat) := by
  have htake : t.take offset.toNat = t.take (min offset.toNat t.length) := by
    rw [← List.take_take, List.take_length]
  rw [Text.lineColumn, htake, Text.lineColumn, Int.toNat_natCast]

/-- Line and column of any offset, inside the text or outside it, are those of the place that is
pointed at. -/
theorem exists_pointsAt (t : Text) (offset : Int) :
    ∃ line start stop i, PointsAt t offset start i ∧ LiesIn t line start stop i ∧
      t.lineColumn offset = (line + 1, i - start + 1) := by
  rw [lineColumn_clamp]
  have hle : min offset.toNat t.length ≤ t.length := Nat.min_le_right _ _
  unfold PointsAt
  generalize min offset.toNat t.length = place at hle ⊢
  obtain ⟨line, start, stop, hbounds, hi, hnext⟩ := exists_line t place
  have hstart := bounds?_start hbounds
  by_cases hpair : InsidePair t place
  · have hbehind := starts_of_insidePair hstart hi hnext hpair
    have hno := not_insidePair_start hbehind
    have hlater : ∀ next, (ofText t).starts[line + 1 + 1]? = some next → place + 1 < next :=
      fun next h => start_lt_of_lt hbehind h (Nat.lt_succ_self _)
    obtain ⟨stop', hlies⟩ := liesIn_of_start hbehind (Nat.le_refl _) hpair.lt_length hlater hno
    refine ⟨line + 1, place + 1, stop', place + 1, .inr ⟨hpair, rfl, rfl⟩, hlies, ?_⟩
    rw [lineColumn_of_insidePair hpair,
      lineColumn_eq hbehind (Nat.le_refl _) hpair.lt_length hlater hno]
  · obtain ⟨stop', hlies⟩ := liesIn_of_start hstart hi hle hnext hpair
    exact ⟨line, start, stop', place, .inl ⟨hpair, rfl⟩, hlies,
      lineColumn_eq hstart hi hle hnext hpair⟩

end Places

namespace EditError

/-- The number of a line and the bar behind it, in front of the line. -/
def gutter (line : Nat) : Text := (toString (line + 1)).toList ++ " | ".toList

/-- Blanks as wide as the number of a line and the blank behind it. -/
def margin (line : Nat) : Text := List.replicate ((toString (line + 1)).toList.length + 1) ' '

def quotedLine (t : Text) (line start stop : Nat) : Text := gutter line ++ t.slice start stop

def caretLine (line column : Nat) : Text :=
  margin line ++ "| ".toList ++ List.replicate column ' ' ++ ['^']

variable {e : EditError} {t file : Text} {line column start stop i : Nat}

theorem reportLines_eq (h : e.source.lineColumn e.offset = (line + 1, column + 1))
    (hline : e.source.lines[line]? = some (t.slice start stop)) (file : Text) :
    e.reportLines file =
      [ "error: ".toList ++ e.message.toList,
        margin line ++ "--> ".toList ++ file ++ ':' :: (toString (line + 1)).toList ++
          ':' :: (toString (column + 1)).toList,
        margin line ++ ['|'], quotedLine t line start stop, caretLine line column] := by
  rw [reportLines, h]
  dsimp only
  rw [Nat.add_sub_cancel, Nat.add_sub_cancel, List.getD_eq_getElem?_getD, hline, Option.getD_some]
  rfl

theorem unbroken_margin (line : Nat) : (margin line).Unbroken := Text.unbroken_replicate _

theorem unbroken_caretLine (line column : Nat) : (caretLine line column).Unbroken := by
  simp only [caretLine, Text.unbroken_append_iff, unbroken_margin, Text.unbroken_replicate,
    true_and, and_true]
  decide

theorem unbroken_quotedLine (h : t.lines[line]? = some (t.slice start stop)) :
    (quotedLine t line start stop).Unbroken := by
  simp only [quotedLine, gutter, Text.unbroken_append_iff, Text.unbroken_toString, true_and]
  exact ⟨by decide, Text.unbroken_of_mem_lines (List.mem_of_getElem? h)⟩

theorem length_margin (line : Nat) :
    (margin line ++ "| ".toList).length = (gutter line).length := by
  simp [margin, gutter]

theorem idxOf_caretLine (line column : Nat) :
    (caretLine line column).idxOf '^' = (gutter line).length + column := by
  have hfront : '^' ∉ margin line ++ "| ".toList ++ List.replicate column ' ' := by
    simp [margin]
  rw [caretLine, List.idxOf_append, if_neg hfront, List.length_append, length_margin,
    List.length_replicate, List.idxOf_cons_self, Nat.zero_add]

theorem getElem?_quotedLine (t : Text) (line : Nat) (hi : start ≤ i) (hstop : i < stop) :
    (quotedLine t line start stop)[(gutter line).length + (i - start)]? = t[i]? := by
  rw [quotedLine, List.getElem?_append_right (Nat.le_add_right _ _), Nat.add_sub_cancel_left,
    Text.slice, Int.toNat_natCast, Int.toNat_natCast, List.getElem?_drop, Nat.add_sub_cancel' hi,
    List.getElem?_take, if_pos hstop]

theorem length_quotedLine (line : Nat) (hstop : stop ≤ t.length) :
    (quotedLine t line start stop).length = (gutter line).length + (stop - start) := by
  rw [quotedLine, List.length_append, Text.length_slice, Int.toNat_natCast, Int.toNat_natCast,
    Nat.min_eq_left hstop]

/-- What the report of a fault shows of a text: line `line`, counted from zero, with the caret under
place `i`. -/
structure Shows (t : Text) (fault : EditFault) (file : Text) (line start stop i : Nat) : Prop where
  points : PointsAt t fault.offset start i
  lies : LiesIn t line start stop i
  lines_eq : (report ⟨fault, t⟩ file).splitOn '\n' =
    [ "error: ".toList ++ fault.message.toList,
      margin line ++ "--> ".toList ++ file ++ ':' :: (toString (line + 1)).toList ++
        ':' :: (toString (i - start + 1)).toList,
      margin line ++ ['|'], quotedLine t line start stop, caretLine line (i - start)]
  unbroken : ∀ l ∈ (report ⟨fault, t⟩ file).splitOn '\n', Text.Unbroken l
  under : i < stop →
    (quotedLine t line start stop)[(caretLine line (i - start)).idxOf '^']? = t[i]?
  behind : i = stop →
    (caretLine line (i - start)).idxOf '^' = (quotedLine t line start stop).length

theorem shows_of_liesIn {fault : EditFault} (hfile : file.Unbroken)
    (hpoints : PointsAt t fault.offset start i) (hlies : LiesIn t line start stop i)
    (hcolumn : t.lineColumn fault.offset = (line + 1, i - start + 1)) :
    Shows t fault file line start stop i := by
  have hreport := reportLines_eq (e := ⟨fault, t⟩) hcolumn hlies.lines_eq file
  have hunbroken : ∀ l ∈ reportLines ⟨fault, t⟩ file, Text.Unbroken l := by
    have hmessage : Text.Unbroken (message ⟨fault, t⟩).toList := fault.unbroken_message
    rw [hreport]
    simp only [List.forall_mem_cons, Text.unbroken_append_iff, Text.unbroken_cons_iff,
      unbroken_margin, unbroken_caretLine, unbroken_quotedLine hlies.lines_eq,
      Text.unbroken_toString, hfile, hmessage, true_and, and_true]
    refine ⟨by decide, ⟨⟨by decide, by decide⟩, by decide⟩, by decide, ?_⟩
    intro l hl
    cases hl
  have hsplit : (report ⟨fault, t⟩ file).splitOn '\n' = reportLines ⟨fault, t⟩ file := by
    apply List.splitOn_intercalate
    · intro l hl hfeed
      cases hunbroken l hl '\n' hfeed
    · rw [hreport]
      exact List.cons_ne_nil _ _
  constructor
  case points => exact hpoints
  case lies => exact hlies
  case lines_eq => exact hsplit.trans hreport
  case unbroken => exact hsplit ▸ hunbroken
  case under =>
    intro hlt
    rw [idxOf_caretLine, getElem?_quotedLine t line hlies.start_le hlt]
  case behind =>
    rintro rfl
    rw [idxOf_caretLine,
      length_quotedLine line (LineIndex.isLine_of_bounds? hlies.bounds_eq).stop_le_length]

/-- The report of an edit that does not fit has five lines, of which none is broken. The fourth is
the number of the line that the offset is in, and that line of the text; the caret in the fifth
stands under the character that is pointed at, or behind the line if the offset is at its end. -/
theorem report_shows {t file : Text} {edit : Edit} (hfit : ¬ edit.Fits t) (hfile : file.Unbroken) :
    ∃ fault line start stop i, edit.apply t = .error ⟨fault, t⟩ ∧
      Shows t fault file line start stop i := by
  obtain ⟨fault, hfault⟩ := Edit.apply_of_not_fits hfit
  obtain ⟨line, start, stop, i, hpoints, hlies, hcolumn⟩ := exists_pointsAt t fault.offset
  exact ⟨fault, line, start, stop, i, hfault, shows_of_liesIn hfile hpoints hlies hcolumn⟩

/-- The offset lies between a carriage return and its line feed. -/
theorem report_shows_pair :
    let t := "ab\r\ncd".toList
    let edit : Edit := ⟨3, 1, []⟩
    let file : Text := "a.b".toList
    ¬ edit.Fits t ∧ file.Unbroken ∧
      (∃ fault line start stop i, edit.apply t = .error ⟨fault, t⟩ ∧
        Shows t fault file line start stop i) ∧
      report ⟨.stopBeforeStart 3 1, t⟩ file =
        "error: edit end 1 is before its start 3\n  --> a.b:2:1\n  |\n2 | cd\n  | ^".toList := by
  intro t edit file
  have hfit : ¬ edit.Fits t := by decide
  have hfile : file.Unbroken := by decide
  exact ⟨hfit, hfile, report_shows hfit hfile, by decide⟩

end EditError

end Highlighter
