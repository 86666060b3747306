import Mathlib.Tactic.Common
import SharedStages.Cache.Basic

/-! Quoted texts, labels and descriptions stay on one line. -/

namespace SharedStages

namespace Text

/-- No control character. -/
def AllShown (s : List Char) : Prop := ∀ c ∈ s, isControl c = false

theorem mem_toDigits {b n : ℕ} {c : Char} (hb : 1 < b) (h : c ∈ Nat.toDigits b n) :
    ∃ d < b, c = Nat.digitChar d := by
  induction n using Nat.strongRecOn with
  | _ n ih =>
    rcases Nat.lt_or_ge n b with hn | hn
    · rw [Nat.toDigits_of_lt_base hn, List.mem_singleton] at h
      exact ⟨n, hn, h⟩
    · rw [Nat.toDigits_of_base_le hb hn, List.mem_append, List.mem_singleton] at h
      rcases h with h | h
      · exact ih (n / b) (Nat.div_lt_self (by omega) hb) h
      · exact ⟨n % b, Nat.mod_lt n (by omega), h⟩

theorem isControl_digit {b n : ℕ} {c : Char} (hb : 1 < b) (hb' : b ≤ 16)
    (h : c ∈ Nat.toDigits b n) : isControl c = false := by
  have hshown : ∀ d < 16, isControl (Nat.digitChar d) = false := by decide
  obtain ⟨d, hd, rfl⟩ := mem_toDigits hb h
  exact hshown d (by omega)

namespace Glyphs

variable (g : Glyphs) {c : Char}

theorem shown_codePoint (c : Char) : AllShown (codePoint c) := by
  intro x hx
  have hframe : ∀ x ∈ ['\\', 'u', '\x7b', '\x7d'], isControl x = false := by simp [isControl]
  simp only [codePoint, List.mem_append] at hx
  rcases hx with (hx | hx) | hx
  · exact hframe x (List.mem_append_left ['\x7d'] hx)
  · exact isControl_digit (by decide) (by decide) hx
  · exact hframe x (List.mem_append_right ['\\', 'u', '\x7b'] hx)

theorem shown_escapeChar (apostrophe alone : Bool) (c : Char) :
    AllShown (g.escapeChar apostrophe alone c) := by
  unfold escapeChar
  cases hl : escapeLetter apostrophe c with
  | some l =>
    have hletter : isControl l = false := by
      unfold escapeLetter at hl
      split_ifs at hl <;> cases hl <;> rfl
    exact List.forall_mem_cons.2 ⟨rfl, List.forall_mem_singleton.2 hletter⟩
  | none =>
    simp only
    split_ifs with hh
    · exact shown_codePoint c
    · -- a control is never printable, so it would be hidden
      have hprintable : g.isPrintable c = true := by simp_all [isHidden]
      refine List.forall_mem_singleton.2 (eq_false_of_ne_true fun hc => ?_)
      rw [g.control_unprintable c hc] at hprintable
      cases hprintable

theorem hasControl_quote (s : String) : hasControl (g.quote s) = false := by
  rw [hasControl_eq_false_iff, toList_quote, quoteChars]
  intro c hc
  rw [List.cons_append, List.mem_cons, List.mem_append, List.mem_flatMap, List.mem_singleton] at hc
  rcases hc with rfl | ⟨x, -, hc⟩ | rfl
  · rfl
  · exact g.shown_escapeChar false true x c hc
  · rfl

theorem hasControl_escape (s : String) : hasControl (g.escape s) = false := by
  rw [hasControl_eq_false_iff, toList_escape]
  cases s.toList with
  | nil => exact List.forall_mem_nil _
  | cons c cs =>
    intro x hx
    rw [escapeChars, List.mem_append, List.mem_flatMap] at hx
    rcases hx with hx | ⟨d, -, hx⟩
    · exact g.shown_escapeChar true true c x hx
    · exact g.shown_escapeChar true false d x hx

end Glyphs

end Text

/-- Identifiers of instances that are all made in one moment: the time stands first, and what comes
after it counts on. -/
def Uuids.ofOneMoment : Uuids where
  text n := "01890a5d-ac96-774b-bcce-" ++ toString (100000000000 + n)
  distinct m n h := by
    have hsum := Text.toString_inj ((String.append_right_inj _).1 h)
    omega
  one_line n := by
    have htime : Text.hasControl "01890a5d-ac96-774b-bcce-" = false := by decide
    exact Text.hasControl_append htime (Text.hasControl_toString _)

theorem Label.hasControl_fallback (u : Uuids) (n : ℕ) :
    Text.hasControl ((fallback n).textWith u) = false := by
  have hstart : Text.hasControl "stage-cache-" = false := by decide
  exact Text.hasControl_append hstart (u.one_line n)

/-- The description is one line, whatever the label. -/
theorem Cache.hasControl_describeWith (g : Text.Glyphs) (u : Uuids) (label : Label) (size : ℕ) :
    Text.hasControl (describeWith g u label size) = false := by
  have hstart : Text.hasControl "StageCache \x7b label: " = false := by decide
  have hlabel := Text.hasControl_append hstart (g.hasControl_quote (label.textWith u))
  have hmiddle : Text.hasControl ", len: " = false := by decide
  have hsize := Text.hasControl_append (Text.hasControl_append hlabel hmiddle)
    (Text.hasControl_toString size)
  have hend : Text.hasControl " \x7d" = false := by decide
  exact Text.hasControl_append hsize hend

end SharedStages
