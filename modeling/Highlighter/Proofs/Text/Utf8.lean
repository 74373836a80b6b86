import Highlighter.Text.Utf8

/-!
UTF-8 is read as it was written: from the bytes that a text is written in, the text is read again.
-/

set_option autoImplicit false

namespace Highlighter.Utf8

variable {n : Nat} {lead : UInt8}

theorem toNat_tailByte (n : Nat) : (tailByte n).toNat = 0x80 + n % 0x40 := by
  rw [tailByte, UInt8.toNat_ofNat']
  omega

theorem tailByte_between {low high : UInt8} (hlow : low.toNat ≤ 0x80 + n % 0x40)
    (hhigh : 0x80 + n % 0x40 ≤ high.toNat) : low ≤ tailByte n ∧ tailByte n ≤ high := by
  rw [UInt8.le_iff_toNat_le, UInt8.le_iff_toNat_le, toNat_tailByte]
  exact ⟨hlow, hhigh⟩

theorem tailByte_mem (n : Nat) : tail.1 ≤ tailByte n ∧ tailByte n ≤ tail.2 := by
  refine tailByte_between (Nat.le_add_right _ _) ?_
  change 0x80 + n % 0x40 ≤ 0xBF
  omega

/-- The bits of a character when more bytes with the bits of these numbers have been read. -/
def joinBits (bits : Nat) (ns : List Nat) : Nat :=
  ns.foldl (fun bits n => bits * 0x40 + n % 0x40) bits

theorem decodeFrom_tailBytes (place : Nat) {u : Unfinished} {ns : List Nat}
    (hnext : u.next.1 ≤ tailByte n ∧ tailByte n ≤ u.next.2)
    (hrest : u.rest = List.replicate ns.length tail) (bytes : List UInt8) :
    ∃ place', decodeFrom place (some u) ((n :: ns).map tailByte ++ bytes) =
      (decodeFrom place' none bytes).map (Char.ofNat (joinBits u.bits (n :: ns)) :: ·) := by
  have hbits : (tailByte n).toNat % 0x40 = n % 0x40 := by
    rw [toNat_tailByte]
    omega
  induction ns generalizing place u n with
  | nil =>
    refine ⟨place + 1, ?_⟩
    rw [List.map_cons, List.cons_append, decodeFrom, if_pos hnext, hrest, hbits]
    rfl
  | cons m ns ih =>
    have hm : (tailByte m).toNat % 0x40 = m % 0x40 := by
      rw [toNat_tailByte]
      omega
    -- The byte read is one more of the character, and those behind it may be any that go on one.
    rw [List.map_cons, List.cons_append, decodeFrom, if_pos hnext, hrest, hbits]
    exact ih (place + 1) (u := ⟨u.lead, u.place, u.length + 1, u.bits * 0x40 + n % 0x40, tail,
      List.replicate ns.length tail⟩) (tailByte_mem m) rfl hm

/-- A first byte and the bits of the byte behind it with which a character may start that has
`count` bytes more. -/
def Starts (lead : UInt8) (n count : Nat) : Prop :=
  ¬ lead < 0x80 ∧ ∃ next, continuation? lead = some (next, List.replicate count tail) ∧
    next.1 ≤ tailByte n ∧ tailByte n ≤ next.2

theorem Starts.decodeFrom (ns : List Nat) (h : Starts lead n ns.length) (place : Nat)
    (bytes : List UInt8) :
    ∃ place', decodeFrom place none (lead :: (n :: ns).map tailByte ++ bytes) =
      (decodeFrom place' none bytes).map
        (Char.ofNat (joinBits (leadBits lead) (n :: ns)) :: ·) := by
  obtain ⟨hlead, next, hnext, hfirst⟩ := h
  rw [List.cons_append, Utf8.decodeFrom, if_neg hlead, hnext]
  exact decodeFrom_tailBytes (place + 1)
    (u := ⟨lead, place, 1, leadBits lead, next, List.replicate ns.length tail⟩) hfirst rfl bytes

/-- The first bytes of characters of two, three and four bytes, and the bits they give. -/
theorem lead_two : ∀ q < 0x20, q < 2 ∨
    ¬ UInt8.ofNat (0xC0 + q) < 0x80 ∧ leadBits (UInt8.ofNat (0xC0 + q)) = q ∧
      continuation? (UInt8.ofNat (0xC0 + q)) = some (tail, []) := by
  decide

theorem lead_three : ∀ q < 0x10,
    ¬ UInt8.ofNat (0xE0 + q) < 0x80 ∧ leadBits (UInt8.ofNat (0xE0 + q)) = q ∧
      continuation? (UInt8.ofNat (0xE0 + q)) =
        some (if q = 0 then (0xA0, 0xBF) else if q = 0xD then (0x80, 0x9F) else tail, [tail]) := by
  decide

theorem lead_four : ∀ q < 5,
    ¬ UInt8.ofNat (0xF0 + q) < 0x80 ∧ leadBits (UInt8.ofNat (0xF0 + q)) = q ∧
      continuation? (UInt8.ofNat (0xF0 + q)) =
        some (if q = 0 then (0x90, 0xBF) else if q = 4 then (0x80, 0x8F) else tail,
          [tail, tail]) := by
  decide

theorem starts_two (h : 0x80 ≤ n) (hlt : n < 0x800) :
    Starts (UInt8.ofNat (0xC0 + n / 0x40)) n 0 := by
  obtain ⟨hlead, -, hnext⟩ := (lead_two (n / 0x40) (by omega)).resolve_left (by omega)
  exact ⟨hlead, tail, hnext, tailByte_mem n⟩

theorem starts_three (h : 0x800 ≤ n) (hlt : n < 0x10000) (hvalid : n < 0xD800 ∨ 0xDFFF < n) :
    Starts (UInt8.ofNat (0xE0 + n / 0x1000)) (n / 0x40) 1 := by
  obtain ⟨hlead, -, hnext⟩ := lead_three (n / 0x1000) (by omega)
  refine ⟨hlead, _, hnext, ?_⟩
  split
  · have hbounds : 0xA0 ≤ 0x80 + n / 0x40 % 0x40 ∧ 0x80 + n / 0x40 % 0x40 ≤ 0xBF := by omega
    exact tailByte_between hbounds.1 hbounds.2
  split
  · have hbounds : 0x80 ≤ 0x80 + n / 0x40 % 0x40 ∧ 0x80 + n / 0x40 % 0x40 ≤ 0x9F := by omega
    exact tailByte_between hbounds.1 hbounds.2
  · exact tailByte_mem _

theorem starts_four (h : 0x10000 ≤ n) (hlt : n < 0x110000) :
    Starts (UInt8.ofNat (0xF0 + n / 0x40000)) (n / 0x1000) 2 := by
  obtain ⟨hlead, -, hnext⟩ := lead_four (n / 0x40000) (by omega)
  refine ⟨hlead, _, hnext, ?_⟩
  split
  · have hbounds : 0x90 ≤ 0x80 + n / 0x1000 % 0x40 ∧ 0x80 + n / 0x1000 % 0x40 ≤ 0xBF := by omega
    exact tailByte_between hbounds.1 hbounds.2
  split
  · have hbounds : 0x80 ≤ 0x80 + n / 0x1000 % 0x40 ∧ 0x80 + n / 0x1000 % 0x40 ≤ 0x8F := by omega
    exact tailByte_between hbounds.1 hbounds.2
  · exact tailByte_mem _

theorem decodeFrom_encodeChar (c : Char) (place : Nat) (bytes : List UInt8) :
    ∃ place', decodeFrom place none (encodeChar c ++ bytes) =
      (decodeFrom place' none bytes).map (c :: ·) := by
  have hchar : Char.ofNat c.toNat = c := Char.ofNat_toNat c
  have hvalid : c.toNat < 0xD800 ∨ 0xDFFF < c.toNat ∧ c.toNat < 0x110000 := c.valid
  unfold encodeChar
  generalize c.toNat = n at hchar hvalid
  dsimp only
  split
  · rename_i hlt
    refine ⟨place + 1, ?_⟩
    have hbyte : (UInt8.ofNat n).toNat = n := by
      rw [UInt8.toNat_ofNat']
      omega
    have hascii : UInt8.ofNat n < 0x80 := by
      rw [UInt8.lt_iff_toNat_lt, hbyte]
      exact hlt
    rw [List.cons_append, decodeFrom, if_pos hascii, hbyte, hchar]
    rfl
  split
  · rename_i h hlt
    have hbits := ((lead_two (n / 0x40) (by omega)).resolve_left (by omega)).2.1
    obtain ⟨place', hread⟩ :=
      (starts_two (n := n) (by omega) hlt).decodeFrom [] place bytes
    have hjoin : joinBits (n / 0x40) [n] = n := by
      simp [joinBits]
      omega
    rw [hbits, hjoin, hchar] at hread
    exact ⟨place', hread⟩
  split
  · rename_i h hlt
    have hbits := (lead_three (n / 0x1000) (by omega)).2.1
    obtain ⟨place', hread⟩ :=
      (starts_three (n := n) (by omega) hlt (by omega)).decodeFrom [n] place bytes
    have hjoin : joinBits (n / 0x1000) [n / 0x40, n] = n := by
      simp [joinBits]
      omega
    rw [hbits, hjoin, hchar] at hread
    exact ⟨place', hread⟩
  · rename_i h
    have hbits := (lead_four (n / 0x40000) (by omega)).2.1
    obtain ⟨place', hread⟩ :=
      (starts_four (n := n) (by omega) (by omega)).decodeFrom [n / 0x40, n] place bytes
    have hjoin : joinBits (n / 0x40000) [n / 0x1000, n / 0x40, n] = n := by
      simp [joinBits]
      omega
    rw [hbits, hjoin, hchar] at hread
    exact ⟨place', hread⟩

theorem decodeFrom_encode (t : Text) (place : Nat) : decodeFrom place none (encode t) = .ok t := by
  induction t generalizing place with
  | nil => rfl
  | cons c t ih =>
    obtain ⟨place', hread⟩ := decodeFrom_encodeChar c place (encode t)
    rw [encode, List.flatMap_cons, ← encode, hread, ih]
    rfl

theorem decode_encode (t : Text) : decode (encode t) = .ok t := decodeFrom_encode t 0

end Highlighter.Utf8
