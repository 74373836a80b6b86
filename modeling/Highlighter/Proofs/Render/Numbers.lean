import Highlighter.Text.Basic

/-!
Numbers in outputs. A number is written in digits, with a minus sign in front if it is negative, so
that it can be told where it stops, and no two numbers are written alike.
-/

set_option autoImplicit false

namespace Highlighter

variable {c : Char}

theorem isDigit_of_mem_toString {n : Nat} (h : c ∈ (toString n).toList) : c.isDigit = true := by
  rw [Nat.toString_eq_ofList_toDigits, String.toList_ofList] at h
  exact Nat.isDigit_of_mem_toDigits (by decide) (by decide) h

theorem toString_negSucc (n : Nat) :
    (toString (Int.negSucc n)).toList = '-' :: (toString (n + 1)).toList := by
  change ("-" ++ (n + 1).repr).toList = _
  rw [String.toList_append]
  rfl

theorem of_mem_toString_int {n : Int} (h : c ∈ (toString n).toList) :
    c = '-' ∨ c.isDigit = true := by
  cases n with
  | ofNat n => exact .inr (isDigit_of_mem_toString h)
  | negSucc n =>
    rw [toString_negSucc] at h
    rcases List.mem_cons.mp h with rfl | h
    · exact .inl rfl
    · exact .inr (isDigit_of_mem_toString h)

theorem not_mem_toString_int (hminus : c ≠ '-') (hdigit : c.isDigit = false) (n : Int) :
    c ∉ (toString n).toList := by
  intro h
  rcases of_mem_toString_int h with rfl | h
  · exact hminus rfl
  · rw [hdigit] at h
    cases h

theorem toString_ofNat_ne_negSucc (m n : Nat) :
    (toString (Int.ofNat m)).toList ≠ (toString (Int.negSucc n)).toList := by
  rw [toString_negSucc]
  intro h
  have hminus : '-' ∈ (toString m).toList := by
    rw [show (toString m).toList = _ from h]
    exact List.mem_cons_self
  cases isDigit_of_mem_toString hminus

theorem toString_int_injective {m n : Int} (h : (toString m).toList = (toString n).toList) :
    m = n := by
  have hnat : ∀ {i j : Nat}, (toString i).toList = (toString j).toList → i = j := by
    intro i j h
    rw [Nat.toString_eq_ofList_toDigits, Nat.toString_eq_ofList_toDigits, String.toList_ofList,
      String.toList_ofList] at h
    rw [← Nat.ofDigitChars_ten_toDigits (n := i), h, Nat.ofDigitChars_ten_toDigits]
  cases m with
  | ofNat i =>
    cases n with
    | ofNat j => exact congrArg Int.ofNat (hnat h)
    | negSucc j => exact absurd h (toString_ofNat_ne_negSucc i j)
  | negSucc i =>
    cases n with
    | ofNat j => exact absurd h.symm (toString_ofNat_ne_negSucc j i)
    | negSucc j =>
      rw [toString_negSucc, toString_negSucc] at h
      obtain rfl := Nat.succ.inj (hnat (List.cons.inj h).2)
      rfl

/-- What stands in front of the first occurrence of a character can be told from the whole. -/
theorem append_cons_inj {s s' u u' : Text} (hs : c ∉ s) (hs' : c ∉ s')
    (h : s ++ c :: u = s' ++ c :: u') : s = s' ∧ u = u' := by
  induction s generalizing s' with
  | nil =>
    cases s' with
    | nil => exact ⟨rfl, (List.cons.inj h).2⟩
    | cons d s' => exact absurd ((List.cons.inj h).1 ▸ List.mem_cons_self) hs'
  | cons d s ih =>
    cases s' with
    | nil => exact absurd ((List.cons.inj h).1 ▸ List.mem_cons_self) hs
    | cons d' s' =>
      obtain ⟨rfl, hrest⟩ := List.cons.inj h
      obtain ⟨rfl, hu⟩ := ih (fun hc => hs (List.mem_cons_of_mem _ hc))
        (fun hc => hs' (List.mem_cons_of_mem _ hc)) hrest
      exact ⟨rfl, hu⟩

theorem number_append_inj {m n : Int} {u v : Text}
    (h : (toString m).toList ++ ',' :: u = (toString n).toList ++ ',' :: v) : m = n ∧ u = v := by
  have hcomma : ∀ k : Int, ',' ∉ (toString k).toList := not_mem_toString_int (by decide) rfl
  obtain ⟨hnumber, hrest⟩ := append_cons_inj (hcomma m) (hcomma n) h
  exact ⟨toString_int_injective hnumber, hrest⟩

end Highlighter
