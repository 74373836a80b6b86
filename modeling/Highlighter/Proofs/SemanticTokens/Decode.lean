import Highlighter.SemanticTokens

/-!
Reading semantic tokens back. A reader adds up the distances, from the start of the line again
whenever the line changes, and finds the tokens that were written.
-/

set_option autoImplicit false

namespace Highlighter

/-- What a reader takes five numbers for. -/
structure Mark where
  line : Int
  character : Int
  length : Int
  type : Int
  deriving DecidableEq, Repr

/-- The marks that numbers give behind a mark at `line` and `character`. -/
def Mark.decode (line character : Int) : List Int → List Mark
  | lines :: characters :: length :: type :: _ :: rest =>
    let m : Mark :=
      ⟨line + lines, if lines = 0 then character + characters else characters, length, type⟩
    m :: decode m.line m.character rest
  | _ => []

namespace SemanticToken

variable {line character : Nat} {tokens : List SemanticToken}

def mark (u : SemanticToken) : Mark := ⟨u.line, u.character, u.length, u.type⟩

theorem decode_deltas (line character : Nat) (tokens : List SemanticToken) :
    Mark.decode line character (deltas line character tokens) = tokens.map mark := by
  induction tokens generalizing line character with
  | nil => rfl
  | cons u tokens ih =>
    have hline : (line : Int) + (u.line - line) = u.line := by omega
    have hcharacter : (if (u.line : Int) - line = 0 then
        (character : Int) + (if u.line = line then (u.character : Int) - character else u.character)
        else if u.line = line then (u.character : Int) - character else u.character) =
          u.character := by
      split
      · rw [if_pos (by omega)]
        omega
      · rw [if_neg (by omega)]
    simp only [deltas, List.cons_append, List.nil_append, Mark.decode]
    rw [hline, hcharacter, ih, List.map_cons, mark]

theorem length_deltas (line character : Nat) (tokens : List SemanticToken) :
    (deltas line character tokens).length = 5 * tokens.length := by
  induction tokens generalizing line character with
  | nil => rfl
  | cons u tokens ih =>
    rw [deltas, List.length_append, ih, List.length_cons]
    simp only [List.length_cons, List.length_nil]
    omega

/-- The token does not come before a position. -/
def NotBefore (line character : Nat) (u : SemanticToken) : Prop :=
  line < u.line ∨ line = u.line ∧ character ≤ u.character

theorem deltas_nonneg (hfirst : ∀ u ∈ tokens, NotBefore line character u)
    (hordered : tokens.Pairwise fun u v => NotBefore u.line u.character v) :
    ∀ n ∈ deltas line character tokens, 0 ≤ n := by
  induction tokens generalizing line character with
  | nil =>
    intro n hn
    cases hn
  | cons u tokens ih =>
    obtain ⟨hu, hordered⟩ := List.pairwise_cons.mp hordered
    have hfirst := hfirst u List.mem_cons_self
    rw [NotBefore] at hfirst
    intro n hn
    rw [deltas, List.mem_append] at hn
    rcases hn with hn | hn
    · simp only [List.mem_cons, List.not_mem_nil, or_false] at hn
      rcases hn with rfl | rfl | rfl | rfl | rfl
      · omega
      · split
        · omega
        · omega
      · omega
      · omega
      · omega
    · exact ih hu hordered n hn

end SemanticToken

end Highlighter
