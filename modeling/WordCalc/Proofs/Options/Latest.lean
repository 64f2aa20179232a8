import Mathlib.Data.List.Induction
import WordCalc.Proofs.Options.Splitting

/-! # The latest setting of a flag

Of several settings of one flag the last one is in force, and without any the default is. A command
is accepted if it is made of settings and the last expression in it is not empty.
-/

namespace WordCalc

variable {α : Type} {setting : Setting} {settings settings' : List Setting}
  {options options' : Options}

namespace Setting

def latest (flag : Flag) (settings : List Setting) : Option Setting :=
  (settings.filter (·.flag = flag)).getLast?

/-- The value of the setting that was found, or the default one if none was. -/
def Chooses (found : Option Setting) (make : α → Setting) (default value : α) : Prop :=
  found = some (make value) ∨ found = none ∧ value = default

end Setting

namespace Options

open Setting

/-- The options have each value from the last setting of its flag. -/
structure InForce (settings : List Setting) (options : Options) : Prop where
  expression : Chooses (latest .expression settings) .expression "" options.expression
  base : Chooses (latest .base settings) .base .decimal options.format.base
  width : Chooses (latest .width settings) .width .w32 options.format.width
  unsigned : options.format.unsigned = true ↔ .unsigned ∈ settings

end Options

namespace Setting

theorem latest_concat_self (settings : List Setting) (setting : Setting) :
    latest setting.flag (settings ++ [setting]) = some setting := by
  simp [latest, List.filter_append]

theorem latest_concat_of_ne {flag : Flag} (h : setting.flag ≠ flag) (settings : List Setting) :
    latest flag (settings ++ [setting]) = latest flag settings := by
  simp [latest, List.filter_append, h]

theorem mem_of_latest {flag : Flag} (h : latest flag settings = some setting) :
    setting ∈ settings := (List.mem_filter.mp (List.mem_of_getLast? h)).1

theorem latest_unsigned_eq_some_iff :
    latest .unsigned settings = some .unsigned ↔ .unsigned ∈ settings := by
  constructor
  · exact mem_of_latest
  · intro h
    induction settings using List.reverseRecOn with
    | nil => cases h
    | append_singleton settings setting ih =>
      by_cases hflag : setting.flag = .unsigned
      · cases setting <;> cases hflag
        exact latest_concat_self settings unsigned
      · rw [latest_concat_of_ne hflag]
        refine ih ((List.mem_append.mp h).resolve_right fun hlast => hflag ?_)
        rw [← List.mem_singleton.mp hlast]
        rfl

theorem Chooses.unique {found : Option Setting} {make : α → Setting} {default value value' : α}
    (hmake : Function.Injective make) (h : Chooses found make default value)
    (h' : Chooses found make default value') : value = value' := by
  rcases h with rfl | ⟨rfl, rfl⟩ <;> rcases h' with h' | ⟨h', rfl⟩
  · exact hmake (Option.some.inj h')
  · cases h'
  · cases h'
  · rfl

theorem Chooses.keep {flag : Flag} {make : α → Setting} {default value : α}
    (h : Chooses (latest flag settings) make default value) (hflag : setting.flag ≠ flag) :
    Chooses (latest flag (settings ++ [setting])) make default value := by
  rwa [latest_concat_of_ne hflag]

end Setting

namespace Options

open Setting

section InForce

theorem InForce.unique (h : InForce settings options) (h' : InForce settings options') :
    options = options' := by
  obtain ⟨expression, ⟨base, width, unsigned⟩⟩ := options
  obtain ⟨expression', ⟨base', width', unsigned'⟩⟩ := options'
  obtain rfl : expression = expression' :=
    h.expression.unique (fun _ _ => Setting.expression.inj) h'.expression
  obtain rfl : base = base' := h.base.unique (fun _ _ => Setting.base.inj) h'.base
  obtain rfl : width = width' := h.width.unique (fun _ _ => Setting.width.inj) h'.width
  obtain rfl : unsigned = unsigned' := Bool.eq_iff_iff.mpr (h.unsigned.trans h'.unsigned.symm)
  rfl

theorem InForce.congr (h : InForce settings options)
    (hlatest : ∀ flag, latest flag settings = latest flag settings') :
    InForce settings' options where
  expression := hlatest .expression ▸ h.expression
  base := hlatest .base ▸ h.base
  width := hlatest .width ▸ h.width
  unsigned := by
    rw [h.unsigned, ← latest_unsigned_eq_some_iff, hlatest, latest_unsigned_eq_some_iff]

/-- A setting comes into force and leaves those of other flags as they are. -/
theorem InForce.override (h : InForce settings options) (setting : Setting) :
    InForce (settings ++ [setting]) (options.override setting) := by
  have hself := latest_concat_self settings setting
  have hunsigned := h.unsigned
  cases setting with
  | expression text =>
    exact ⟨Or.inl hself, h.base.keep nofun, h.width.keep nofun,
      by simpa [Options.override] using hunsigned⟩
  | base value =>
    exact ⟨h.expression.keep nofun, Or.inl hself, h.width.keep nofun,
      by simpa [Options.override] using hunsigned⟩
  | width value =>
    exact ⟨h.expression.keep nofun, h.base.keep nofun, Or.inl hself,
      by simpa [Options.override] using hunsigned⟩
  | unsigned =>
    exact ⟨h.expression.keep nofun, h.base.keep nofun, h.width.keep nofun,
      by simp [Options.override]⟩

theorem inForce_foldl (settings : List Setting) :
    InForce settings (settings.foldl override {}) := by
  induction settings using List.reverseRecOn with
  | nil => exact ⟨Or.inr ⟨rfl, rfl⟩, Or.inr ⟨rfl, rfl⟩, Or.inr ⟨rfl, rfl⟩, by simp⟩
  | append_singleton settings setting ih =>
    rw [List.foldl_concat]
    exact ih.override setting

theorem ofSettings_eq (settings : List Setting) :
    ofSettings settings =
      if (settings.foldl override {}).expression = "" then .error .noExpression
      else .ok (settings.foldl override {}) := rfl

theorem ofSettings_eq_ok_iff : ofSettings settings = .ok options ↔
    InForce settings options ∧ options.expression ≠ "" := by
  have hforce := inForce_foldl settings
  rw [ofSettings_eq]
  constructor
  · intro h
    split at h
    · cases h
    · rename_i hne
      obtain rfl := Except.ok.inj h
      exact ⟨hforce, hne⟩
  · rintro ⟨h, hne⟩
    obtain rfl := hforce.unique h
    exact if_neg hne

end InForce

theorem ofCommand_eq_usage {command : List String} (h : command.length ≤ 2) :
    ofCommand command = .error .usage := if_pos h

theorem ofCommand_eq {command : List String} (h : 2 < command.length) :
    ofCommand command = readAll (command.drop 1) >>= ofSettings :=
  if_neg (Nat.not_le_of_lt h)

theorem ofCommand_eq_ok_iff_exists {command : List String} :
    ofCommand command = .ok options ↔ 3 ≤ command.length ∧ ∃ settings,
      command.drop 1 = settings.flatMap words ∧ InForce settings options ∧
      options.expression ≠ "" := by
  by_cases hlength : command.length ≤ 2
  · rw [ofCommand_eq_usage hlength]
    simp only [reduceCtorEq, false_iff, not_and]
    omega
  · rw [Nat.not_le] at hlength
    simp only [ofCommand_eq hlength, bind_eq_ok_iff, readAll_eq_ok_iff, ofSettings_eq_ok_iff]
    exact (and_iff_right hlength).symm

theorem InForce.latest_expression (h : InForce settings options) (hne : options.expression ≠ "") :
    latest .expression settings = some (.expression options.expression) :=
  h.expression.resolve_right fun hnone => hne hnone.2

theorem three_le_length (name : String) {text : String} (h : .expression text ∈ settings) :
    3 ≤ (name :: settings.flatMap words).length := by
  have hwords : (words (.expression text)).Sublist (settings.flatMap words) := by
    rw [List.flatMap_def]
    exact List.sublist_flatten_of_mem (List.mem_map_of_mem h)
  exact Nat.succ_le_succ hwords.length_le

theorem ofCommand_eq_ok_of_latest {name : String}
    (hlatest : ∀ flag, latest flag settings = latest flag settings')
    (h : ofCommand (name :: settings.flatMap words) = .ok options) :
    ofCommand (name :: settings'.flatMap words) = .ok options := by
  obtain ⟨-, settings'', hparts, hforce, hne⟩ := ofCommand_eq_ok_iff_exists.mp h
  obtain rfl := flatMap_words_injective hparts
  have hforce' := hforce.congr hlatest
  exact ofCommand_eq_ok_iff_exists.mpr
    ⟨three_le_length name (mem_of_latest (hforce'.latest_expression hne)), settings', rfl, hforce',
      hne⟩

/-- A command is accepted exactly if it can be cut into settings, which is then possible in one way,
and the last expression is not empty. The last setting of each flag is in force, and nothing but the
last settings counts. -/
theorem ofCommand_accepted :
    (∀ command options, ofCommand command = .ok options ↔ 3 ≤ command.length ∧ ∃ settings text,
      (∀ settings', command.drop 1 = settings'.flatMap words ↔ settings' = settings) ∧
      latest .expression settings = some (.expression text) ∧ text ≠ "" ∧
      InForce settings options) ∧
    ∀ name settings settings', (∀ flag, latest flag settings = latest flag settings') →
      ∀ options, ofCommand (name :: settings.flatMap words) = .ok options ↔
        ofCommand (name :: settings'.flatMap words) = .ok options := by
  refine ⟨fun command options => ?_, fun name settings settings' hlatest options => ?_⟩
  · rw [ofCommand_eq_ok_iff_exists]
    refine and_congr_right fun _ => exists_congr fun settings => ?_
    constructor
    · rintro ⟨hparts, hforce, hne⟩
      refine ⟨options.expression, fun settings' => ?_, hforce.latest_expression hne, hne, hforce⟩
      rw [hparts]
      exact flatMap_words_injective.eq_iff.trans eq_comm
    · rintro ⟨text, hparts, hlatest, hne, hforce⟩
      have htext := hforce.expression.unique (fun _ _ => Setting.expression.inj) (Or.inl hlatest)
      exact ⟨(hparts settings).mpr rfl, hforce, htext ▸ hne⟩
  · exact ⟨ofCommand_eq_ok_of_latest hlatest, ofCommand_eq_ok_of_latest fun flag =>
      (hlatest flag).symm⟩

theorem ofCommand_accepted_again :
    (∀ flag, latest flag [.expression "", .base .binary, .expression "-u", .base .hexadecimal] =
      latest flag [.base .hexadecimal, .expression "-u"]) ∧
    ofCommand [programName, "-e", "", "-b", "2", "-e", "-u", "-b", "16"] =
      .ok { expression := "-u", format := { base := .hexadecimal } } ∧
    ofCommand [programName, "-b", "16", "-e", "-u"] =
      .ok { expression := "-u", format := { base := .hexadecimal } } := by
  have hlatest : ∀ flag, latest flag
      [.expression "", .base .binary, .expression "-u", .base .hexadecimal] =
        latest flag [.base .hexadecimal, .expression "-u"] := by
    intro flag
    cases flag <;> rfl
  have hlong : ofCommand [programName, "-e", "", "-b", "2", "-e", "-u", "-b", "16"] =
      .ok { expression := "-u", format := { base := .hexadecimal } } := rfl
  exact ⟨hlatest, hlong, (ofCommand_accepted.2 programName _ _ hlatest _).mp hlong⟩

end Options

end WordCalc
