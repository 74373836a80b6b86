import Highlighter.Proofs.Scan.Places
import Highlighter.Proofs.Scan.Tiling

/-!
Progress of scans. A scanner reads a token in turns, each in one mode. The opening of a comment or a
string only changes the mode, and so does a turn in the rest of a line comment or a string of which
nothing is left; every other turn ends the token. So every token comes to an end, none is empty, and
a scan comes to the end of the text.
-/

set_option autoImplicit false

namespace Highlighter

/-- Token by token, each with the mode that is reported behind it, a scan comes to an end. -/
inductive Run (t : Text) : Nat → Mode → List (Token × Mode) → Prop where
  | done {place : Nat} {mode : Mode} : nextToken? t place mode = none → Run t place mode []
  | next {place : Nat} {mode after : Mode} {u : Token} {rest : List (Token × Mode)} :
      nextToken? t place mode = some (u, after) → Run t u.stop.toNat after rest →
      Run t place mode ((u, after) :: rest)

/-- Inside the text the next token is what the turns come to, and the default mode is behind it. -/
theorem lt_length_iff_nextToken? (t : Text) (place : Nat) (mode : Mode) :
    place < t.length ↔ ∃ u, nextToken? t place mode = some (u, .default) ∧
      Turns t place place mode (u, .default) := by
  constructor
  · intro hlt
    have hs := List.drop_eq_getElem_cons hlt
    exact ⟨_, nextToken?_of_drop mode hs, turns_front mode hs⟩
  · rintro ⟨u, hnext, -⟩
    exact (lt_of_nextToken? hnext).1

theorem scanFrom_run (mode : Mode) {t s : Text} {place : Nat} (hs : t.drop place = s) :
    Run t place mode ((scanFrom mode place s).map fun u => (u, .default)) := by
  induction s using Text.drop_induction generalizing mode place with
  | nil =>
    rw [scanFrom_nil]
    exact .done (nextToken?_eq_none_iff.mpr (List.drop_eq_nil_iff.mp hs))
  | cons c s ih =>
    have hpos := Reading.front_length_pos mode c s
    rw [scanFrom_cons, List.map_cons]
    refine .next (nextToken?_of_drop mode hs) ?_
    rw [Reading.token_stop, ← Int.natCast_add, Int.toNat_natCast]
    exact ih _ hpos .default (by rw [← List.drop_drop, hs])

/-- From every offset and in every mode a scan ends. Each of its tokens takes finitely many turns
and leaves the default mode behind; together they are the text from the offset on, cut into pieces
that are not empty. -/
theorem scanAt_run_tiles (t : Text) (offset : Nat) (mode : Mode) :
    (∀ place mode, place < t.length ↔ ∃ u, nextToken? t place mode = some (u, .default) ∧
      Turns t place place mode (u, .default)) ∧
    Run t offset mode ((scanAt t offset mode).map fun u => (u, .default)) ∧
    Tiles t offset (scanAt t offset mode) ∧
    (scanAt t offset mode).flatMap (·.lexeme) = t.drop offset ∧
    (scanAt t offset mode = [] ↔ t.length ≤ offset) := by
  have htiles := scanAt_tiles t offset mode
  refine ⟨lt_length_iff_nextToken? t, ?_, htiles, ?_, ?_⟩
  · rw [scanAt_eq]
    exact scanFrom_run mode rfl
  · exact htiles.flatMap_lexeme
  · exact htiles.eq_nil_iff

end Highlighter
