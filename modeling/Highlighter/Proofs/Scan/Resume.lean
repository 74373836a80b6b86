import Highlighter.Proofs.Scan.Lexical
import Highlighter.Proofs.Scan.LineBreak
import Highlighter.Proofs.Scan.Progress

/-!
Scans that start inside a comment or a string. Behind the opening, where a comment or a string stops
is told by what is still to come. So a scan that starts there in the mode of the construct reads the
rest of it and goes on as the scan of the whole text does. Only the two characters that close a
block comment must not be parted.
-/

set_option autoImplicit false

namespace Highlighter

/-- The mode behind the opening of the comment or string that a token is, and the length of the
opening. -/
def Token.opening? (u : Token) : Option (Mode × Nat) :=
  match u.kind with
  | .lineComment => some (.lineComment, 2)
  | .blockComment => some (.blockComment, 2)
  | .stringLiteral => some (.string, 1)
  | .unknown => if u.lexeme.head? = some '"' then some (.string, 1) else none
  | _ => none

namespace Reading

variable {t s : Text} {c : Char} {offset stop : Nat}

theorem front_lineComment (h : FirstFrom isLineEnd t offset stop) (hlt : offset < stop)
    (hs : t.drop offset = c :: s) :
    front .lineComment c s = ⟨.lineComment, stop - offset, .default⟩ := by
  have hstop := firstFrom_iff.mp h
  rw [hs] at hstop
  have hrest : lineRest (c :: s) = stop - offset := by
    unfold lineRest
    omega
  rw [front, hrest, if_neg (by omega)]

theorem front_blockComment (h : BlockStop t offset stop) (hlt : offset < t.length)
    (hs : t.drop offset = c :: s) :
    front .blockComment c s = ⟨.blockComment, stop - offset, .default⟩ := by
  have hstop := (blockStop_iff hs (Nat.le_of_lt hlt)).mp h
  have hrest : blockRest (c :: s) = stop - offset := by omega
  rw [front, hrest]

theorem front_string {place : Nat} (h : FirstFrom endsString t offset place)
    (hquote : t[place]? = some '"') (hs : t.drop offset = c :: s) :
    front .string c s = ⟨.stringLiteral, place + 1 - offset, .default⟩ := by
  have hrest := stringRest_of_firstFrom h
  have hle := h.1
  rw [hs, if_pos hquote] at hrest
  rw [front, hrest, Nat.succ_sub hle]
  rfl

theorem front_unclosed (h : FirstFrom endsString t offset stop) (hquote : t[stop]? ≠ some '"')
    (hlt : offset < stop) (hs : t.drop offset = c :: s) :
    front .string c s = ⟨.unknown, stop - offset, .default⟩ := by
  have hrest := stringRest_of_firstFrom h
  rw [hs, if_neg hquote] at hrest
  rw [front, hrest]
  exact if_neg (by omega)

end Reading

theorem infix_of_closes {t : Text} {i start : Nat} (h : Closes t i) (hle : start ≤ i) :
    "*/".toList <:+: t.slice start (i + 2 : Nat) := by
  have htake : t.take (i + 2) = t.take i ++ ['*', '/'] := by
    rw [List.take_add_one, List.take_add_one, h.1, h.2, List.append_assoc]
    rfl
  have hlength : start ≤ (t.take i).length := by
    have := (List.getElem?_eq_some_iff.mp h.1).1
    rw [List.length_take]
    omega
  rw [Text.slice, Int.toNat_natCast, Int.toNat_natCast, htake,
    List.drop_append_of_le_length hlength]
  exact (List.suffix_append _ _).isInfix

/-- Behind its opening, a comment or a string is read up to where it stops. -/
theorem Lexical.front_eq {t s : Text} {c : Char} {start stop offset opening : Nat} {kind : Kind}
    {mode : Mode} (h : Lexical t start stop kind) (hle : stop ≤ t.length)
    (hopen : Token.opening? ⟨kind, start, stop, t.slice start stop⟩ = some (mode, opening))
    (hoffset : start + opening ≤ offset) (hlt : offset < stop)
    (hclose : kind = .blockComment → ¬ Token.IsOpen ⟨kind, start, stop, t.slice start stop⟩ →
      offset + 2 ≤ stop)
    (hs : t.drop offset = c :: s) :
    Reading.front mode c s = ⟨kind, stop - offset, .default⟩ := by
  cases h with
  | lineComment _ _ hstop =>
    cases hopen
    exact Reading.front_lineComment (hstop.of_le hoffset (Nat.le_of_lt hlt)) hlt hs
  | blockComment _ _ hstop =>
    cases hopen
    apply Reading.front_blockComment _ (Nat.lt_of_lt_of_le hlt hle) hs
    -- If the comment is closed, its closing characters are not passed: `hclose` is in
    -- front of them.
    apply hstop.of_le hoffset
    intro i hi hcloses hplace
    have hclosed : ¬ Token.IsOpen ⟨.blockComment, start, stop, t.slice start stop⟩ := by
      intro hopen
      apply hopen.2
      dsimp only
      rw [Text.slice, Int.toNat_natCast, List.drop_drop, hplace]
      exact infix_of_closes hcloses hi
    have := hclose rfl hclosed
    omega
  | string _ hstop hquote hplace =>
    cases hopen
    subst hplace
    exact Reading.front_string (hstop.of_le hoffset (Nat.le_of_lt_succ hlt)) hquote hs
  | unclosed hchar hstop hquote =>
    rw [Token.opening?] at hopen
    dsimp only at hopen
    split at hopen
    · cases hopen
      exact Reading.front_unclosed (hstop.of_le hoffset (Nat.le_of_lt hlt)) hquote hlt hs
    · cases hopen
  | stray hchar hstray hstop =>
    rw [Token.opening?] at hopen
    dsimp only at hopen
    rw [Text.head?_slice t (by omega), hchar, if_neg] at hopen
    · cases hopen
    · intro hquote
      exact hstray.no_quote (Option.some.inj hquote)
  | number => cases hopen
  | version => cases hopen
  | word => cases hopen
  | pair => cases hopen
  | operator => cases hopen
  | blank => cases hopen

/-- A scan from inside a comment or a string, in the mode of the construct and not between the two
characters that close it, reads the rest of it as a token of the same kind. The tokens that follow
are those that follow the whole construct. -/
theorem scanAt_resume {t : Text} {front rest : List Token} {u : Token} {mode : Mode}
    {opening : Nat} (hscan : scan t = front ++ u :: rest)
    (hopen : u.opening? = some (mode, opening)) (offset : Nat)
    (hoffset : u.start + opening ≤ offset) (hlt : (offset : Int) < u.stop)
    (hclose : u.kind = .blockComment → ¬ u.IsOpen → (offset : Int) ≤ u.stop - 2) :
    nextToken? t offset mode =
        some (⟨u.kind, offset, u.stop, t.slice offset u.stop⟩, .default) ∧
      scanAt t offset mode = ⟨u.kind, offset, u.stop, t.slice offset u.stop⟩ :: rest := by
  have hmem : u ∈ scan t := by simp [hscan]
  obtain ⟨start, stop, -, hle, hu, hlexical⟩ := exists_lexical_of_mem_scan hmem
  rw [scan_eq] at hscan
  obtain ⟨n, hstop, hrest⟩ := scanFrom_behind hscan
  generalize u.kind = kind at hu hlexical hclose ⊢
  subst hu
  rw [Int.zero_add] at hstop
  dsimp only at hstop hrest hoffset hlt hclose ⊢
  obtain rfl := Int.natCast_inj.mp hstop
  have hoff : start + opening ≤ offset := by omega
  have hlt' : offset < stop := by omega
  obtain ⟨c, s, hs⟩ : ∃ c s, t.drop offset = c :: s :=
    ⟨_, _, List.drop_eq_getElem_cons (Nat.lt_of_lt_of_le hlt' hle)⟩
  have hread : Reading.front mode c s = ⟨kind, stop - offset, .default⟩ := by
    apply hlexical.front_eq hle hopen hoff hlt' _ hs
    intro hkind hclosed
    have := hclose hkind hclosed
    omega
  have hlength : offset + (stop - offset) = stop := Nat.add_sub_cancel' (Nat.le_of_lt hlt')
  have htoken : (Reading.front mode c s).token offset (c :: s) =
      ⟨kind, offset, stop, t.slice offset stop⟩ := by
    rw [Reading.token_eq_slice _ hs.symm, hread, hlength]
  constructor
  · rw [nextToken?_of_drop mode hs, htoken]
  · rw [scanAt_eq, hs, scanFrom_cons, htoken, hread, ← hs, List.drop_drop, hlength, hrest,
      ← Int.natCast_add, hlength]

/-- What is left of the comment looks like a comment of its own. -/
theorem scanAt_resume_star :
    let t := "x/*/**/y".toList
    let u : Token := ⟨.blockComment, 1, 7, "/*/**/".toList⟩
    scan t = [⟨.identifier, 0, 1, ['x']⟩] ++ u :: [⟨.identifier, 7, 8, ['y']⟩] ∧
      u.opening? = some (.blockComment, 2) ∧ u.start + 2 ≤ 3 ∧ 3 < u.stop ∧ ¬ u.IsOpen ∧
      (3 : Int) ≤ u.stop - 2 ∧
      nextToken? t 3 .blockComment = some (⟨.blockComment, 3, 7, "/**/".toList⟩, .default) ∧
      scanAt t 3 .blockComment =
        ⟨.blockComment, 3, 7, "/**/".toList⟩ :: [⟨.identifier, 7, 8, ['y']⟩] := by
  intro t u
  have hscan : scan t = [⟨.identifier, 0, 1, ['x']⟩] ++ u :: [⟨.identifier, 7, 8, ['y']⟩] := by
    decide +kernel
  have hclosed : ¬ u.IsOpen := by
    intro hopen
    exact hopen.2 (by decide)
  exact ⟨hscan, rfl, by decide, by decide, hclosed, by decide,
    scanAt_resume hscan rfl 3 (by decide) (by decide) (fun _ _ => by decide)⟩

end Highlighter
