import WordCalc.Proofs.Grammar.Fold
import WordCalc.Proofs.Grammar.Spelling
import WordCalc.Proofs.Modular.Integer
import WordCalc.Proofs.Numeral.Residue

/-! # Exactness modulo the width

Where only operators with a meaning on integers occur, calculating on words from the residues of
the literals gives the residue of the integer value of the full numerals. What is written for it
at any width shows that value.
-/

namespace WordCalc

variable {source text raw : Text} {token : Token}

/-- The number of a raw literal, before it is cut to a word. -/
def fullNumeral (base : Base) (raw : Text) : Option Nat := some (base.numeral raw)

/-- The text spells the chain of numbers. -/
def Denotes (source : Text) (d : Chain Nat) : Prop := Spells fullNumeral source d.terminals

theorem Denotes.unique {d d' : Chain Nat} (h : Denotes source d) (h' : Denotes source d') :
    d = d' :=
  Chain.terminals_injective (Spells.unique h h')

theorem exists_fullNumeral {t : Terminal Word} (hraw : token.IsSpelling raw)
    (ht : token.terminal? (Base.word? · raw) = some t) :
    ∃ t', token.terminal? (fullNumeral · raw) = some t' ∧ t'.map (BitVec.ofNat 32) = t := by
  cases token with
  | literal base =>
    obtain ⟨value, hword, rfl⟩ := Option.map_eq_some_iff.mp ht
    obtain rfl := Base.IsNumeral.word?_eq hraw hword
    exact ⟨.literal (base.numeral raw), rfl, rfl⟩
  | endOfText => cases ht
  | _ => cases ht; exact ⟨_, rfl, rfl⟩

/-- The terminals of words are residues of terminals of numbers. -/
theorem Spells.exists_fullNumeral {terminals : List (Terminal Word)}
    (h : Spells Base.word? text terminals) : ∃ terminals', Spells fullNumeral text terminals' ∧
      terminals'.map (Terminal.map (BitVec.ofNat 32)) = terminals := by
  induction h with
  | nil => exact ⟨[], .nil, rfl⟩
  | blank hc _ ih =>
    obtain ⟨terminals', hspells, hmap⟩ := ih
    exact ⟨terminals', .blank hc hspells, hmap⟩
  | spelling hraw hend ht _ ih =>
    obtain ⟨terminals', hspells, hmap⟩ := ih
    obtain ⟨t', ht', hres⟩ := WordCalc.exists_fullNumeral hraw ht
    exact ⟨t' :: terminals', .spelling hraw hend ht' hspells, by rw [List.map_cons, hres, hmap]⟩

theorem exists_denotes {e : Expr} (h : Expr.ofText source = .ok e) :
    ∃ d : Chain Nat, Denotes source d ∧ (d.map (BitVec.ofNat 32)).tree = e := by
  obtain ⟨-, c, hspells, -, rfl⟩ := Expr.ofText_eq_ok_iff.mp h
  obtain ⟨terminals, hfull, hmap⟩ := hspells.exists_fullNumeral
  obtain ⟨d, rfl, rfl⟩ := c.exists_map_eq _ hmap
  exact ⟨d, hfull, rfl⟩

/-- The operator has a meaning on integers. -/
def BinaryOp.IsModular (op : BinaryOp) : Prop := op.onInt?.isSome = true

theorem related_integer : Algebra.integer.Related (Algebra.value.comap (BitVec.ofNat 32))
    BinaryOp.IsModular fun x y => ∃ n, x = some n ∧ y = .ok (.ofInt 32 n) := by
  constructor
  · exact fun n => ⟨n, rfl, rfl⟩
  · rintro op x y ⟨n, rfl, rfl⟩
    exact ⟨op.onInt n, rfl, congrArg Except.ok (op.apply_ofInt n)⟩
  · rintro op x y x' y' hop ⟨left, rfl, rfl⟩ ⟨right, rfl, rfl⟩
    obtain ⟨f, hf⟩ := Option.isSome_iff_exists.mp hop
    refine ⟨f left right, ?_, BinaryOp.apply_ofInt hf⟩
    simp [Algebra.integer, hf]

theorem eval_tree {d : Chain Nat} (hops : ∀ op, .operator op ∈ d.terminals → op.IsModular) :
    ∃ n, d.fold .integer = some n ∧
      (d.map (BitVec.ofNat 32)).tree.eval = .ok (.ofInt 32 n) := by
  rw [← Chain.fold_value, Chain.fold_map]
  exact d.fold_related related_integer hops

/-- The text of an accepted expression has one chain of full numerals. If all of its operators are
modular, its integer value is shown in every format. -/
theorem Options.run_shows (source : String) {e : Expr} (h : Expr.ofText source.toList = .ok e) :
    ∃ d : Chain Nat, (∀ d', Denotes source.toList d' ↔ d' = d) ∧
      ((∀ op, .operator op ∈ d.terminals → op.IsModular) →
        ∃ n, d.fold .integer = some n ∧
          ∀ format, ∃ text, Options.run ⟨source, format⟩ = .ok text ∧ format.Shows n text) := by
  obtain ⟨d, hd, rfl⟩ := exists_denotes h
  refine ⟨d, ?_, ?_⟩
  · intro d'
    constructor
    · intro hd'
      exact hd'.unique hd
    · rintro rfl
      exact hd
  · intro hops
    obtain ⟨n, hn, heval⟩ := eval_tree hops
    refine ⟨n, hn, ?_⟩
    intro format
    refine ⟨_, ?_, format.shows_render n⟩
    simp [Options.run, Text.evaluate, h, heval, Except.mapError]

theorem Options.run_shows_wrapped :
    Expr.ofText "~4294967297<<0x3".toList =
      .ok (.binary .shiftLeft (.unary .complement (.literal 1)) (.literal 3)) ∧
    ∃ text, Options.run ⟨"~4294967297<<0x3", ⟨.decimal, .w8, false⟩⟩ = .ok text ∧
      Format.Shows ⟨.decimal, .w8, false⟩ (-34359738384) text := by
  have hread : Expr.ofText "~4294967297<<0x3".toList =
      .ok (.binary .shiftLeft (.unary .complement (.literal 1)) (.literal 3)) := rfl
  let d : Chain Nat :=
    ⟨.unary .complement (.literal 4294967297), .more .shiftLeft (.literal 3) .done⟩
  have hspells : _ ∧ Spells fullNumeral "~4294967297<<0x3".toList d.terminals :=
    spells_iff.mpr ⟨[⟨.complement, ⟨0, 0⟩⟩, ⟨.literal .decimal, ⟨1, 10⟩⟩,
      ⟨.operator .shiftLeft, ⟨11, 12⟩⟩, ⟨.literal .hexadecimal, ⟨13, 15⟩⟩],
      ⟨.endOfText, ⟨16, 16⟩⟩, rfl, rfl, rfl⟩
  have hops : ∀ op, .operator op ∈ d.terminals → op.IsModular := by
    intro op hop
    obtain rfl : op = .shiftLeft := by simpa [d, Chain.terminals, UnaryOp.terminal] using hop
    rfl
  obtain ⟨found, hfound, hrun⟩ := Options.run_shows _ hread
  obtain rfl := (hfound d).mp hspells.2
  obtain ⟨n, hn, hshows⟩ := hrun hops
  obtain rfl : -34359738384 = n := Option.some.inj hn
  exact ⟨hread, hshows _⟩

end WordCalc
