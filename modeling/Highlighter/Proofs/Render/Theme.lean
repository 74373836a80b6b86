import Highlighter.Proofs.Except
import Highlighter.Render.Format

/-!
Themes that name colours only. Every theme that comes from a configuration is one, and with such a
theme there is an output for every text.
-/

set_option autoImplicit false

namespace Highlighter

namespace Theme

variable {theme theme' : Theme} {tag color : Text}

/-- Every colour of the theme is one of the sixteen. -/
def Known (theme : Theme) : Prop :=
  ∀ tag color, theme.get? tag = some color → (colorCodes.get? color).isSome

theorem known_nil : Known [] := by
  rintro _ _ ⟨⟩

theorem Known.cons (h : theme.Known) (hcolor : (colorCodes.get? color).isSome) :
    Known ((tag, color) :: theme) := by
  intro tag' color' hget
  rw [Entries.get?] at hget
  split at hget
  · exact Option.some.inj hget ▸ hcolor
  · exact h tag' color' hget

theorem Known.put (h : theme.Known) (hcolor : (colorCodes.get? color).isSome) :
    Known (theme.put tag color) := by
  intro tag' color' hget
  rw [Entries.get?_put] at hget
  split at hget
  · exact Option.some.inj hget ▸ hcolor
  · exact h tag' color' hget

theorem known_of_forall (h : ∀ e ∈ theme, (colorCodes.get? e.2).isSome) : theme.Known := by
  induction theme with
  | nil => exact known_nil
  | cons e theme ih =>
    exact (ih fun e he => h e (List.mem_cons_of_mem _ he)).cons (h e List.mem_cons_self)

theorem standard_known : standard.Known := known_of_forall (by decide)

theorem Known.paint (h : theme.Known) {entry : Text × Setting}
    (hpaint : theme.paint entry = .ok theme') : theme'.Known := by
  unfold Theme.paint at hpaint
  split at hpaint
  · split at hpaint
    · rename_i hcolor
      exact Except.ok.inj hpaint ▸ h.put hcolor
    · cases hpaint
  · cases hpaint

theorem known_of_ofSetting {setting : Option Setting} (h : ofSetting setting = .ok theme) :
    theme.Known := by
  unfold ofSetting at h
  split at h
  · exact Except.ok.inj h ▸ standard_known
  · exact Except.ok.inj h ▸ standard_known
  · exact foldlM_keeps (fun _ _ _ h => h.paint) standard_known h
  · cases h

end Theme

namespace Ansi

variable {theme : Theme}

theorem render_cons (theme : Theme) (t : Text) (s : Span) (spans : List Span) :
    render theme t (s :: spans) = do
      let first ← renderSpan theme t s
      let rest ← render theme t spans
      return first ++ rest := by
  rw [render, render, List.mapM_cons]
  cases renderSpan theme t s with
  | error e => rfl
  | ok first => cases spans.mapM (renderSpan theme t) <;> rfl

theorem exists_renderSpan (h : theme.Known) (t : Text) (s : Span) :
    ∃ output, renderSpan theme t s = .ok output := by
  unfold renderSpan
  split
  · exact ⟨_, rfl⟩
  · rename_i color hget
    obtain ⟨code, hcode⟩ := Option.isSome_iff_exists.mp (h _ _ hget)
    rw [hcode]
    exact ⟨_, rfl⟩

theorem exists_render (h : theme.Known) (t : Text) (spans : List Span) :
    ∃ output, render theme t spans = .ok output := by
  induction spans with
  | nil => exact ⟨[], rfl⟩
  | cons s spans ih =>
    obtain ⟨first, hfirst⟩ := exists_renderSpan h t s
    obtain ⟨rest, hrest⟩ := ih
    rw [render_cons, hfirst, hrest]
    exact ⟨_, rfl⟩

end Ansi

theorem exists_render {theme : Theme} (h : theme.Known) (format : Format) (c : Config) (t : Text)
    (tokens : List Token) : ∃ output, render format c theme t tokens = .ok output := by
  cases format with
  | ansi => exact Ansi.exists_render h t _
  | html | json | tokens => exact ⟨_, rfl⟩

end Highlighter
