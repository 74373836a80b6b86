import Highlighter.Config.Basic
import Highlighter.Proofs.Except

/-!
The parts of a configuration. A table makes a configuration if and only if both of its parts are
right, and each part is judged for itself.
-/

set_option autoImplicit false

namespace Highlighter.Config

variable {data data' : Table} {name : Text} {value : Setting}

/-- The keywords that a table gives. -/
def keywordsOf (data : Table) : Except ConfigFault Keywords := do
  Keywords.standard.extended (← (← part data "keywords").mapM readWords)

/-- The tags that a table gives to kinds. -/
def tagsOf (data : Table) : Except ConfigFault (List (Kind × Text)) := do
  (← part data "tags").mapM readTag

theorem ofTable_eq (data : Table) :
    ofTable data = do
      let keywords ← keywordsOf data
      let tags ← tagsOf data
      return ⟨keywords, fun kind => (Entries.get? tags kind).getD kind.tag⟩ := by
  simp only [ofTable, keywordsOf, tagsOf, bind_assoc]

theorem exists_ofTable_iff :
    (∃ config, ofTable data = .ok config) ↔
      (∃ keywords, keywordsOf data = .ok keywords) ∧ ∃ tags, tagsOf data = .ok tags := by
  rw [ofTable_eq]
  simp only [exists_bind_eq_ok_iff]
  simp [pure, Except.pure]

theorem part_congr {part : String} (h : data.get? part.toList = data'.get? part.toList) :
    Config.part data part = Config.part data' part := by
  rw [Config.part, h, Config.part]

theorem keywordsOf_congr
    (h : data.get? "keywords".toList = data'.get? "keywords".toList) :
    keywordsOf data = keywordsOf data' := by
  rw [keywordsOf, part_congr h, keywordsOf]

theorem tagsOf_congr (h : data.get? "tags".toList = data'.get? "tags".toList) :
    tagsOf data = tagsOf data' := by
  rw [tagsOf, part_congr h, tagsOf]

/-- Nothing is wrong with an entry of the part `tags`. -/
def RightTag (entry : Text × Setting) : Prop := ∃ tag, readTag entry = .ok tag

theorem exists_tagsOf_iff :
    (∃ tags, tagsOf data = .ok tags) ↔
      ∃ entries, part data "tags" = .ok entries ∧ ∀ entry ∈ entries, RightTag entry := by
  rw [tagsOf, exists_bind_eq_ok_iff]
  simp only [exists_mapM_eq_ok_iff, RightTag]

theorem rightTag_iff :
    RightTag (name, value) ↔
      (∃ kind, Kind.ofTag? name = some kind) ∧ ∃ tag, value = .str tag ∧ isTag tag = true := by
  rw [RightTag, readTag, Kind.ofCategory]
  cases Kind.ofTag? name with
  | none => simp [bind, Except.bind]
  | some kind =>
    cases value with
    | str tag =>
      by_cases htag : isTag tag = true <;> simp [bind, Except.bind, pure, Except.pure, htag]
    | _ => simp [bind, Except.bind]

end Highlighter.Config
