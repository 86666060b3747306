import SharedStages.Config
import SharedStages.Proofs.StageId
import SharedStages.Proofs.Text.Escaped

/-! What is said of a refused text. It is said on one line, whatever was refused, and of no other
refused text in the same words. -/

namespace SharedStages

open Text

namespace Fault

/-- The refused id as it came, or the refused value as it is shown. -/
def value : Fault → String
  | badId input _ => input
  | badSetting _ value _ => value

/-- What is shown of the faults of `check` is one line, and tells which text was refused. -/
structure Telling {α : Type} (check : String → Except Fault α) (shown : Fault → String) :
    Prop where
  one_line {s : String} {f : Fault} : check s = .error f → hasControl (shown f) = false
  distinct {s s' : String} {f f' : Fault} : check s = .error f → check s' = .error f' →
    s ≠ s' → shown f ≠ shown f'

/-- The area in front changes nothing as long as it is the same for all faults. -/
theorem Telling.messageWith {α : Type} {check : String → Except Fault α} {g : Glyphs}
    (h : Telling check (detailWith g)) (text : String) (htext : hasControl text = false)
    (harea : ∀ s f, check s = .error f → f.area = text) : Telling check (messageWith g) where
  one_line {s f} hf := by
    rw [messageWith_eq, harea s f hf]
    exact hasControl_append htext (h.one_line hf)
  distinct {s s' f f'} hf hf' hne := by
    rw [messageWith_eq, messageWith_eq, harea s f hf, harea s' f' hf', Ne, String.append_right_inj]
    exact h.distinct hf hf' hne

variable (g : Glyphs)

section Ids

theorem hasControl_defect (d : Decimal.Defect) : hasControl d.text = false := by
  cases d <;> decide

theorem telling_ofText : Telling StageId.ofText (detailWith g) where
  one_line {s f} hf := by
    obtain ⟨d, -, rfl⟩ := StageId.ofText_eq_error_iff.1 hf
    have hstart : hasControl "Invalid stage id " = false := by decide
    have hcolon : hasControl ": " = false := by decide
    have hquoted := hasControl_append hstart (g.hasControl_quote s)
    unfold detailWith
    exact hasControl_append (hasControl_append hquoted hcolon) (hasControl_defect d)
  distinct {s s' f f'} hf hf' hne heq := by
    obtain ⟨d, -, rfl⟩ := StageId.ofText_eq_error_iff.1 hf
    obtain ⟨d', -, rfl⟩ := StageId.ofText_eq_error_iff.1 hf'
    -- the reasons may differ too, so the quotes are told apart by where they close
    unfold detailWith at heq
    simp only [← String.toList_inj, String.toList_append, List.append_assoc, Glyphs.toList_quote,
      List.append_cancel_left_eq] at heq
    exact hne (String.toList_inj.1 (g.quoteChars_append_inj heq))

end Ids

section Names

theorem checkNameWith_eq_error_iff {name : String} {f : Fault} :
    Config.checkNameWith g name = .error f ↔ hasControl name = true ∧
      f = .badSetting "debug_name" (g.escape name)
        "debug_name must not contain control characters" := by
  unfold Config.checkNameWith
  cases hasControl name <;> simp [eq_comm]

theorem telling_value : Telling (Config.checkNameWith g) value where
  one_line {s f} hf := by
    obtain ⟨-, rfl⟩ := (checkNameWith_eq_error_iff g).1 hf
    exact g.hasControl_escape s
  distinct {s s' f f'} hf hf' hne heq := by
    obtain ⟨-, rfl⟩ := (checkNameWith_eq_error_iff g).1 hf
    obtain ⟨-, rfl⟩ := (checkNameWith_eq_error_iff g).1 hf'
    exact hne (g.escape_inj.1 heq)

theorem telling_checkName : Telling (Config.checkNameWith g) (detailWith g) where
  one_line {s f} hf := by
    have hvalue := (telling_value g).one_line hf
    obtain ⟨-, rfl⟩ := (checkNameWith_eq_error_iff g).1 hf
    have hstart : hasControl ("Invalid value for " ++ "debug_name" ++ ": ") = false := by decide
    have hdash : hasControl " - " = false := by decide
    have hreason : hasControl "debug_name must not contain control characters" = false := by decide
    unfold detailWith
    exact hasControl_append (hasControl_append (hasControl_append hstart hvalue) hdash) hreason
  distinct {s s' f f'} hf hf' hne := by
    have hvalue : g.escape s ≠ g.escape s' := mt g.escape_inj.1 hne
    obtain ⟨-, rfl⟩ := (checkNameWith_eq_error_iff g).1 hf
    obtain ⟨-, rfl⟩ := (checkNameWith_eq_error_iff g).1 hf'
    unfold detailWith
    simpa only [ne_eq, String.append_left_inj, String.append_right_inj] using hvalue

end Names

/-- Whatever the tables of characters: the texts about a refused id, and the value and the texts
about a refused name, have no control character and are not those of another id or name. -/
theorem refusals_telling :
    Telling StageId.ofText (detailWith g) ∧ Telling StageId.ofText (messageWith g) ∧
    Telling (Config.checkNameWith g) value ∧ Telling (Config.checkNameWith g) (detailWith g) ∧
    Telling (Config.checkNameWith g) (messageWith g) := by
  refine ⟨telling_ofText g, ?_, telling_value g, telling_checkName g, ?_⟩
  · apply (telling_ofText g).messageWith "Format error: " (by decide)
    intro s f hf
    obtain ⟨d, -, rfl⟩ := StageId.ofText_eq_error_iff.1 hf
    rfl
  · apply (telling_checkName g).messageWith "Config error: " (by decide)
    intro s f hf
    obtain ⟨-, rfl⟩ := (checkNameWith_eq_error_iff g).1 hf
    rfl

/-- A line feed, and the two characters that it is shown as. -/
theorem refusals_telling_lineFeed :
    (∃ f f', StageId.ofText "\n" = .error f ∧ StageId.ofText "\\n" = .error f' ∧
      hasControl (f.messageWith glyphs) = false ∧ f.messageWith glyphs ≠ f'.messageWith glyphs) ∧
    ∃ f f', Config.checkNameWith glyphs "\t\n" = .error f ∧
      Config.checkNameWith glyphs "\t\\n" = .error f' ∧ hasControl f.value = false ∧
      f.value ≠ f'.value := by
  obtain ⟨-, hid, hname, -⟩ := refusals_telling glyphs
  have hread : StageId.ofText "\n" = .error (.badId "\n" "invalid digit found in string") := by
    decide
  have hread' : StageId.ofText "\\n" = .error (.badId "\\n" "invalid digit found in string") := by
    decide
  have hcheck (s : String) (h : hasControl s = true) :
      Config.checkNameWith glyphs s = .error (.badSetting "debug_name" (glyphs.escape s)
        "debug_name must not contain control characters") :=
    (checkNameWith_eq_error_iff glyphs).2 ⟨h, rfl⟩
  have hfeed := hcheck "\t\n" (by decide)
  have hshown := hcheck "\t\\n" (by decide)
  exact ⟨⟨_, _, hread, hread', hid.one_line hread, hid.distinct hread hread' (by decide)⟩,
    _, _, hfeed, hshown, hname.one_line hfeed, hname.distinct hfeed hshown (by decide)⟩

end Fault

end SharedStages
