import Mathlib.Data.List.Basic
import Mathlib.Logic.Function.Basic
import WordCalc.Options
import WordCalc.Proofs.Except

/-! # Commands cut into settings

The words of a setting are never the start of the words of another one, so a command can be cut
into settings in one way at most. Where it goes on but no setting starts, one of four errors says
why, and reading stops with it.
-/

namespace WordCalc

open Function

theorem Flag.isPartialInv_display : IsPartialInv Flag.display Flag.ofDisplay? := by
  intro flag word
  constructor
  · unfold ofDisplay?
    split <;> rintro ⟨⟩ <;> rfl
  · rintro rfl
    exact ofDisplay?_display flag

theorem Base.isPartialInv_display : IsPartialInv Base.display Base.ofDisplay? := by
  intro base word
  constructor
  · unfold ofDisplay?
    split <;> rintro ⟨⟩ <;> rfl
  · rintro rfl
    exact ofDisplay?_display base

theorem Width.isPartialInv_display : IsPartialInv Width.display Width.ofDisplay? := by
  intro width word
  constructor
  · unfold ofDisplay?
    split <;> rintro ⟨⟩ <;> rfl
  · rintro rfl
    exact ofDisplay?_display width

theorem eq_none_of_isPartialInv {α : Type} {display : α → String} {read? : String → Option α}
    (hinv : IsPartialInv display read?) {word : String} (h : ∀ a, word ≠ display a) :
    read? word = none :=
  Option.eq_none_iff_forall_ne_some.mpr fun a ha => h a ((hinv a word).mp ha).symm

namespace Setting

variable {parts rest rest' : List String} {setting setting' : Setting}
  {settings settings' : List Setting} {e : OptionError}

def flag : Setting → Flag
  | expression _ => .expression
  | base _ => .base
  | width _ => .width
  | unsigned => .unsigned

/-- Why no setting starts here although the command goes on: a flag lacks its value, or does not
take the value behind it, or a word is no flag. -/
inductive Misfit : List String → OptionError → Prop
  | missingValue {flag : Flag} (takes_value : flag ≠ .unsigned) :
      Misfit [flag.display] (.missingValue flag)
  | invalidBase {text : String} (invalid : ∀ base : Base, text ≠ base.display)
      (later : List String) : Misfit (Flag.base.display :: text :: later) (.invalidBase text)
  | invalidWidth {text : String} (invalid : ∀ width : Width, text ≠ width.display)
      (later : List String) : Misfit (Flag.width.display :: text :: later) (.invalidWidth text)
  | unknownArgument {word : String} (unknown : ∀ flag : Flag, word ≠ flag.display)
      (later : List String) : Misfit (word :: later) (.unknownArgument word)

/-- The parts of a command begin with the settings, and with no longer row of settings. -/
structure Leads (settings : List Setting) (rest parts : List String) : Prop where
  split : parts = settings.flatMap words ++ rest
  longest : ∀ settings' rest', parts = settings'.flatMap words ++ rest' → settings' <+: settings

section Words

theorem exists_words_eq (setting : Setting) :
    ∃ values, setting.words = setting.flag.display :: values := by
  cases setting <;> exact ⟨_, rfl⟩

theorem words_ne_nil (setting : Setting) : setting.words ≠ [] := by
  obtain ⟨values, hvalues⟩ := setting.exists_words_eq
  simp [hvalues]

theorem flag_eq_of_words {flag : Flag} (h : flag.display :: parts = setting.words ++ rest) :
    flag = setting.flag := by
  obtain ⟨values, hvalues⟩ := setting.exists_words_eq
  rw [hvalues, List.cons_append, List.cons.injEq] at h
  exact Flag.isPartialInv_display.injective h.1

theorem words_append_inj (h : setting.words ++ rest = setting'.words ++ rest') :
    setting = setting' ∧ rest = rest' := by
  have hflag : setting.flag = setting'.flag := by
    obtain ⟨values, hvalues⟩ := setting.exists_words_eq
    rw [hvalues, List.cons_append] at h
    exact flag_eq_of_words h
  cases setting <;> cases setting' <;> cases hflag <;>
    simp only [words, List.cons_append, List.nil_append, List.cons.injEq, true_and] at h
  case expression => exact ⟨congrArg expression h.1, h.2⟩
  case base => exact ⟨congrArg base (Base.isPartialInv_display.injective h.1), h.2⟩
  case width => exact ⟨congrArg width (Width.isPartialInv_display.injective h.1), h.2⟩
  case unsigned => exact ⟨rfl, h⟩

theorem Misfit.ne_append (h : Misfit parts e) (setting : Setting) (rest : List String) :
    parts ≠ setting.words ++ rest := by
  intro hparts
  cases h with
  | missingValue hvalue =>
    obtain rfl := flag_eq_of_words hparts
    cases setting with
    | unsigned => exact hvalue rfl
    | _ => cases hparts
  | invalidBase hinvalid =>
    cases setting <;> cases flag_eq_of_words hparts
    exact hinvalid _ (List.cons.inj (List.cons.inj hparts).2).1
  | invalidWidth hinvalid =>
    cases setting <;> cases flag_eq_of_words hparts
    exact hinvalid _ (List.cons.inj (List.cons.inj hparts).2).1
  | unknownArgument hunknown =>
    obtain ⟨values, hvalues⟩ := setting.exists_words_eq
    rw [hvalues, List.cons_append, List.cons.injEq] at hparts
    exact hunknown _ hparts.1

theorem parts_cases (parts : List String) :
    parts = [] ∨ (∃ (setting : Setting) (rest : List String), parts = setting.words ++ rest) ∨
      ∃ e, Misfit parts e := by
  rcases parts with _ | ⟨word, later⟩
  · exact Or.inl rfl
  right
  by_cases hflag : ∃ flag : Flag, word = flag.display
  · obtain ⟨flag, rfl⟩ := hflag
    by_cases hunsigned : flag = .unsigned
    · exact Or.inl ⟨unsigned, later, hunsigned ▸ rfl⟩
    rcases later with _ | ⟨text, later⟩
    · exact Or.inr ⟨_, .missingValue hunsigned⟩
    cases flag with
    | expression => exact Or.inl ⟨expression text, later, rfl⟩
    | base =>
      by_cases hvalid : ∃ base : Base, text = base.display
      · obtain ⟨value, rfl⟩ := hvalid
        exact Or.inl ⟨base value, later, rfl⟩
      · exact Or.inr ⟨_, .invalidBase (not_exists.mp hvalid) later⟩
    | width =>
      by_cases hvalid : ∃ width : Width, text = width.display
      · obtain ⟨value, rfl⟩ := hvalid
        exact Or.inl ⟨width value, later, rfl⟩
      · exact Or.inr ⟨_, .invalidWidth (not_exists.mp hvalid) later⟩
    | unsigned => exact absurd rfl hunsigned
  · exact Or.inr ⟨_, .unknownArgument (not_exists.mp hflag) later⟩

end Words

section Rows

theorem Leads.start (h : ∀ (setting : Setting) later, rest ≠ setting.words ++ later) :
    Leads [] rest rest where
  split := rfl
  longest settings' rest' hparts := by
    cases settings' with
    | nil => exact List.nil_prefix
    | cons setting settings' =>
      rw [List.flatMap_cons, List.append_assoc] at hparts
      exact absurd hparts (h setting _)

theorem Leads.cons (h : Leads settings rest parts) (setting : Setting) :
    Leads (setting :: settings) rest (setting.words ++ parts) where
  split := by rw [List.flatMap_cons, List.append_assoc, ← h.split]
  longest settings' rest' hparts := by
    cases settings' with
    | nil => exact List.nil_prefix
    | cons setting' settings' =>
      rw [List.flatMap_cons, List.append_assoc] at hparts
      obtain ⟨rfl, htail⟩ := words_append_inj hparts
      exact List.cons_prefix_cons.mpr ⟨rfl, h.longest settings' rest' htail⟩

/-- The longest row of settings ends with the command or in front of a misfit. -/
theorem exists_leads (parts : List String) :
    ∃ settings rest, Leads settings rest parts ∧ (rest = [] ∨ ∃ e, Misfit rest e) := by
  induction hlength : parts.length using Nat.strongRecOn generalizing parts with
  | ind n ih =>
    rcases parts_cases parts with rfl | ⟨setting, rest, rfl⟩ | ⟨e, he⟩
    · refine ⟨[], [], .start fun setting later h => ?_, Or.inl rfl⟩
      exact setting.words_ne_nil (List.append_eq_nil_iff.mp h.symm).1
    · have hpos := List.length_pos_iff.mpr setting.words_ne_nil
      rw [List.length_append] at hlength
      obtain ⟨settings, rest', hleads, hrest⟩ := ih rest.length (by omega) rest rfl
      exact ⟨setting :: settings, rest', hleads.cons setting, hrest⟩
    · exact ⟨[], parts, .start he.ne_append, Or.inr ⟨e, he⟩⟩

end Rows

theorem readAll_words_append (setting : Setting) (rest : List String) :
    readAll (setting.words ++ rest) = do return setting :: (← readAll rest) := by
  cases setting <;>
    simp only [words, List.cons_append, List.nil_append, readAll, readBase, readWidth,
      Flag.ofDisplay?_display, Base.ofDisplay?_display, Width.ofDisplay?_display, ok_bind]

theorem readAll_of_misfit (h : Misfit rest e) (settings : List Setting) :
    readAll (settings.flatMap words ++ rest) = .error e := by
  induction settings with
  | nil =>
    cases h with
    | @missingValue flag hvalue =>
      cases flag with
      | unsigned => exact absurd rfl hvalue
      | _ => rfl
    | invalidBase hinvalid =>
      have hnone := eq_none_of_isPartialInv Base.isPartialInv_display hinvalid
      simp [readAll, readBase, hnone]
    | invalidWidth hinvalid =>
      have hnone := eq_none_of_isPartialInv Width.isPartialInv_display hinvalid
      simp [readAll, readWidth, hnone]
    | unknownArgument hunknown =>
      have hnone := eq_none_of_isPartialInv Flag.isPartialInv_display hunknown
      simp [readAll, hnone]
  | cons setting settings ih =>
    rw [List.flatMap_cons, List.append_assoc, readAll_words_append, ih]
    rfl

theorem readAll_eq_ok_iff : readAll parts = .ok settings ↔ parts = settings.flatMap words := by
  constructor
  · intro h
    obtain ⟨settings', rest, ⟨rfl, -⟩, rfl | ⟨e, he⟩⟩ := exists_leads parts
    · rw [List.append_nil, readAll_flatMap_words] at h
      rw [List.append_nil, Except.ok.inj h]
    · rw [readAll_of_misfit he] at h
      cases h
  · rintro rfl
    exact readAll_flatMap_words settings

theorem flatMap_words_injective : Injective (List.flatMap words) := by
  intro settings settings' h
  have hread := readAll_flatMap_words settings
  rw [h, readAll_flatMap_words] at hread
  exact (Except.ok.inj hread).symm

end Setting

end WordCalc
