import Highlighter.Proofs.Scan.Progress

/-!
Scans do not look back. The scanner moves on in the whole text, but what lies in front of the place
where a token starts plays no part in its turns: they are those of a scanner that has only the rest
of the text, with every place moved by as much as lies in front. So a scan is the scan of the rest
of the text, moved, and scans of two texts go on alike from wherever the same is still to come.
-/

set_option autoImplicit false

namespace Highlighter

namespace Text

variable {t : Text} {o : Nat}

theorem slice_drop (t : Text) (o start stop : Nat) :
    Text.slice (t.drop o) start stop = t.slice (o + start : Nat) (o + stop : Nat) := by
  simp only [slice, Int.toNat_natCast, List.drop_take, List.drop_drop, Nat.add_sub_add_left]

theorem skip_drop (p : Char → Bool) (t : Text) (o place : Nat) :
    t.skip p (o + place) = o + Text.skip p (t.drop o) place := by
  rw [skip_eq, skip_eq, List.drop_drop, Nat.add_assoc]

theorem skipString_drop (t : Text) (o place : Nat) :
    t.skipString (o + place) =
      (o + (Text.skipString (t.drop o) place).1, (Text.skipString (t.drop o) place).2) := by
  rw [skipString_eq, skipString_eq, List.drop_drop, Nat.add_assoc]

theorem skipPoints_drop (t : Text) (o : Nat) (dotted : Bool) (place : Nat) :
    t.skipPoints dotted (o + place) =
      (o + (Text.skipPoints (t.drop o) dotted place).1,
        (Text.skipPoints (t.drop o) dotted place).2) := by
  fun_induction skipPoints (t.drop o) dotted place with
  | case1 dotted place h ih =>
    rw [List.getElem?_drop, List.getElem?_drop] at h
    rw [skipPoints, Nat.add_assoc, if_pos h, skip_drop, ih]
  | case2 dotted place h =>
    rw [List.getElem?_drop, List.getElem?_drop] at h
    rw [skipPoints, Nat.add_assoc, if_neg h]

theorem findClose_drop (t : Text) (o place : Nat) :
    t.findClose (o + place) = (Text.findClose (t.drop o) place).map (o + ·) := by
  fun_induction findClose (t.drop o) place with
  | case1 place hlt h =>
    rw [List.getElem?_drop, List.getElem?_drop] at h
    rw [findClose, if_pos (List.getElem?_eq_some_iff.mp h.1).1, Nat.add_assoc, if_pos h]
    rfl
  | case2 place hlt h ih =>
    rw [List.getElem?_drop, List.getElem?_drop] at h
    rw [List.length_drop] at hlt
    rw [findClose, if_pos (by omega), Nat.add_assoc, if_neg h, ih]
  | case3 place hge =>
    rw [List.length_drop] at hge
    rw [findClose, if_neg (by omega)]
    rfl

end Text

namespace Scanner

variable {t : Text} {o start place : Nat} {mode : Mode}

/-- What a turn comes to, `o` characters further on in `t`. -/
def move (t : Text) (o : Nat) (r : Option Token × Scanner) : Option Token × Scanner :=
  (r.1.map (Token.shift o), ⟨t, o + r.2.start, o + r.2.place, r.2.mode⟩)

theorem emit_drop (kind : Kind) :
    emit ⟨t, o + start, o + place, mode⟩ kind =
      move t o (emit ⟨t.drop o, start, place, mode⟩ kind) := by
  simp only [move, emit, Option.map_some, Text.slice_drop, Token.shift, Int.natCast_add,
    Int.add_comm (o : Int)]

theorem lexNumber_drop :
    lexNumber ⟨t, o + start, o + place, mode⟩ =
      move t o (lexNumber ⟨t.drop o, start, place, mode⟩) := by
  simp only [lexNumber, skip, moveTo, Text.skip_drop, Text.skipPoints_drop]
  exact emit_drop _

theorem lexDefault_drop :
    lexDefault ⟨t, o + start, o + place, mode⟩ =
      move t o (lexDefault ⟨t.drop o, start, place, mode⟩) := by
  have hpeek : ∀ n, peek? ⟨t, o + start, o + place, mode⟩ n =
      peek? ⟨t.drop o, start, place, mode⟩ n := by
    intro n
    rw [peek?, peek?, List.getElem?_drop, Nat.add_assoc]
  have hadvance : ∀ n kind, (advance ⟨t, o + start, o + place, mode⟩ n).emit kind =
      move t o ((advance ⟨t.drop o, start, place, mode⟩ n).emit kind) := by
    intro n kind
    simp only [advance, moveTo, Nat.add_assoc]
    exact emit_drop kind
  have hskip : ∀ p kind, (skip ⟨t, o + start, o + place, mode⟩ p).emit kind =
      move t o ((skip ⟨t.drop o, start, place, mode⟩ p).emit kind) := by
    intro p kind
    simp only [skip, moveTo, Text.skip_drop]
    exact emit_drop kind
  have henter : ∀ n next, (advance ⟨t, o + start, o + place, mode⟩ n).enter next =
      move t o ((advance ⟨t.drop o, start, place, mode⟩ n).enter next) := by
    intro n next
    simp only [advance, moveTo, Nat.add_assoc]
    rfl
  unfold lexDefault
  simp only [hpeek]
  cases peek? ⟨t.drop o, start, place, mode⟩ 0 with
  | none => exact hadvance 1 _
  | some c =>
    simp only [apply_ite (move t o)]
    simp only [hadvance, hskip, henter, lexNumber_drop]

theorem lexLineComment_drop :
    lexLineComment ⟨t, o + start, o + place, mode⟩ =
      move t o (lexLineComment ⟨t.drop o, start, place, mode⟩) := by
  simp only [lexLineComment, leave, Text.skip_drop, Nat.add_left_cancel_iff]
  rw [apply_ite (move t o)]
  exact ite_congr rfl (fun _ => rfl) fun _ => emit_drop _

theorem lexBlockComment_drop (ho : o ≤ t.length) :
    lexBlockComment ⟨t, o + start, o + place, mode⟩ =
      move t o (lexBlockComment ⟨t.drop o, start, place, mode⟩) := by
  have hend : o + (t.drop o).length = t.length := by
    rw [List.length_drop]
    omega
  simp only [lexBlockComment, leave, Text.findClose_drop]
  cases Text.findClose (t.drop o) place with
  | none =>
    simp only [Option.map_none, Option.elim_none, ← hend]
    exact emit_drop _
  | some i =>
    simp only [Option.map_some, Option.elim_some, Nat.add_assoc]
    exact emit_drop _

theorem lexString_drop :
    lexString ⟨t, o + start, o + place, mode⟩ =
      move t o (lexString ⟨t.drop o, start, place, mode⟩) := by
  simp only [lexString, leave, Text.skipString_drop, Nat.add_left_cancel_iff]
  rw [apply_ite (move t o), apply_ite (move t o)]
  exact ite_congr rfl (fun _ => emit_drop _) fun _ =>
    ite_congr rfl (fun _ => rfl) fun _ => emit_drop _

/-- A turn is the same in what is left of the text. -/
theorem turn_drop (ho : o ≤ t.length) (start place : Nat) (mode : Mode) :
    turn ⟨t, o + start, o + place, mode⟩ = move t o (turn ⟨t.drop o, start, place, mode⟩) := by
  cases mode with
  | default => exact lexDefault_drop
  | lineComment => exact lexLineComment_drop
  | blockComment => exact lexBlockComment_drop ho
  | string => exact lexString_drop

theorem next_drop (ho : o ≤ t.length) (start place : Nat) (mode : Mode) :
    next ⟨t, o + start, o + place, mode⟩ =
      ((next ⟨t.drop o, start, place, mode⟩).1.shift o,
        (next ⟨t.drop o, start, place, mode⟩).2) := by
  generalize hx : (⟨t.drop o, start, place, mode⟩ : Scanner) = x
  fun_induction next x generalizing start place mode with
  | case1 x u y h =>
    have hturn := turn_drop ho start place mode
    rw [hx, h] at hturn
    rw [next_of_stop hturn]
  | case2 x y h _ ih =>
    have hturn := turn_drop ho start place mode
    have hmoves := x.moves_turn
    rw [hx, h] at hturn
    rw [h] at hmoves
    subst hx
    cases hmoves with
    | @enter place' mode' => exact (next_of_go hturn).trans (ih start place' mode' rfl)

end Scanner

section Scans

variable {t t' : Text} {o o' : Nat}

theorem nextToken?_drop (t : Text) (o : Nat) (mode : Mode) :
    nextToken? t o mode = (nextToken? (t.drop o) 0 mode).map fun r => (r.1.shift o, r.2) := by
  rw [nextToken?, nextToken?, List.length_drop]
  by_cases hle : t.length ≤ o
  · rw [if_pos hle, if_pos (Nat.le_of_eq (Nat.sub_eq_zero_of_le hle))]
    rfl
  · rw [if_neg hle, if_neg (by omega)]
    exact congrArg some (Scanner.next_drop (Nat.le_of_not_le hle) 0 0 mode)

theorem scanAt_drop (t : Text) (o : Nat) (mode : Mode) :
    scanAt t o mode = (scanAt (t.drop o) 0 mode).map (Token.shift o) := by
  rw [scanAt_eq, scanAt_eq, List.drop_zero, ← scanFrom_shift, Int.natCast_zero, Int.zero_add]

theorem scanAt_congr (h : t.drop o = t'.drop o') (mode : Mode) :
    scanAt t' o' mode = (scanAt t o mode).map (Token.shift (o' - o)) := by
  have hplace : (o : Int) + (o' - o) = o' := by omega
  rw [scanAt_eq, scanAt_eq, h, ← scanFrom_shift, hplace]

/-- Whole scans go on alike from tokens behind whose starts the same is still to come. -/
theorem scan_tail_congr {pre post pre' post' : List Token} {u u' : Token}
    (hscan : scan t = pre ++ u :: post) (hscan' : scan t' = pre' ++ u' :: post')
    (h : t.drop u.start.toNat = t'.drop u'.start.toNat) :
    u' :: post' = (u :: post).map (Token.shift (u'.start - u.start)) := by
  rw [scan_eq] at hscan hscan'
  obtain ⟨o, hstart, htail⟩ := scanFrom_from hscan
  obtain ⟨o', hstart', htail'⟩ := scanFrom_from hscan'
  rw [Int.zero_add] at hstart hstart'
  rw [hstart, hstart', Int.toNat_natCast, Int.toNat_natCast] at h
  rw [htail, htail', hstart, hstart', ← scanAt_eq, ← scanAt_eq]
  exact scanAt_congr h .default

end Scans

/-- In front of an offset nothing is looked at. From there on the scanner takes the same turns in
the text and in what is left of it, and so reads the same tokens, moved. So texts of which the same
is left are scanned alike, and two whole scans that have come to tokens with the same text ahead go
on alike. -/
theorem scanAt_of_suffix {t : Text} {o : Nat} (ho : o ≤ t.length) (mode : Mode) :
    (∀ start place mode, Scanner.turn ⟨t, o + start, o + place, mode⟩ =
      Scanner.move t o (Scanner.turn ⟨t.drop o, start, place, mode⟩)) ∧
    (∀ start place mode, Scanner.next ⟨t, o + start, o + place, mode⟩ =
      ((Scanner.next ⟨t.drop o, start, place, mode⟩).1.shift o,
        (Scanner.next ⟨t.drop o, start, place, mode⟩).2)) ∧
    nextToken? t o mode = (nextToken? (t.drop o) 0 mode).map (fun r => (r.1.shift o, r.2)) ∧
    scanAt t o mode = (scanAt (t.drop o) 0 mode).map (Token.shift o) ∧
    ∀ t' : Text,
      (∀ o' : Nat, t.drop o = t'.drop o' →
        scanAt t' o' mode = (scanAt t o mode).map (Token.shift (o' - o))) ∧
      ∀ pre u post pre' u' post', scan t = pre ++ u :: post → scan t' = pre' ++ u' :: post' →
        t.drop u.start.toNat = t'.drop u'.start.toNat →
        u' :: post' = (u :: post).map (Token.shift (u'.start - u.start)) := by
  refine ⟨Scanner.turn_drop ho, Scanner.next_drop ho, nextToken?_drop t o mode,
    scanAt_drop t o mode, fun t' => ⟨fun o' h => scanAt_congr h mode, ?_⟩⟩
  intro pre u post pre' u' post' hscan hscan'
  exact scan_tail_congr hscan hscan'

/-- An offset inside a number: what is left of the number is read on its own. -/
theorem scanAt_of_suffix_number :
    5 ≤ "v 1.22.3".toList.length ∧
      scanAt "v 1.22.3".toList 5 .default = [⟨.pragmaValue, 5, 8, "2.3".toList⟩] := by
  have ho : 5 ≤ "v 1.22.3".toList.length := by decide
  refine ⟨ho, ?_⟩
  rw [(scanAt_of_suffix ho .default).2.2.2.1]
  decide +kernel

end Highlighter
