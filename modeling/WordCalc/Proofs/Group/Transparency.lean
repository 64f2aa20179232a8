import WordCalc.Proofs.Group.Context
import WordCalc.Proofs.Lexeme.Splitting

/-! # Groups of texts

The text between two matching parentheses of an expression is an expression, and the parentheses
with that text can be replaced by any literal of its value. If it has no value, the whole text has
none.
-/

namespace WordCalc

variable {source before text after raw : Text} {front inner back later : List Lexeme}
  {opening closing : Lexeme} {base : Base} {value : Word} {context : ChainContext Word}
  {g : Chain Word}

theorem eq_openParen_of_isSpelling (h : Token.openParen.IsSpelling raw) : raw = ['('] :=
  (by decide : ∀ x ∈ Token.symbols, x.2 = .openParen → x.1 = ['(']) _ h rfl

theorem eq_closeParen_of_isSpelling (h : Token.closeParen.IsSpelling raw) : raw = [')'] :=
  (by decide : ∀ x ∈ Token.symbols, x.2 = .closeParen → x.1 = [')']) _ h rfl

/-- The parentheses of a group split the text around them. -/
theorem CoversBefore.exists_group
    (h : CoversBefore [] 0 source (front ++ opening :: (inner ++ closing :: back)))
    (hopen : opening.token = .openParen) (hclose : closing.token = .closeParen) :
    ∃ before text after, source = before ++ '(' :: (text ++ ')' :: after) ∧
      before.size = opening.span.first ∧
      Text.size (before ++ '(' :: text) = closing.span.first ∧
      CoversBefore ('(' :: (text ++ ')' :: after)) 0 before front ∧
      CoversBefore (')' :: after) (Text.size (before ++ ['('])) text inner ∧
      CoversBefore [] (Text.size (before ++ '(' :: (text ++ [')']))) after back := by
  obtain ⟨before, raw, behind, rfl, hfront, hraw, hspan, hbehind⟩ := h.exists_middle
  rw [hopen] at hraw
  obtain rfl := eq_openParen_of_isSpelling hraw
  obtain ⟨text, raw, after, rfl, hinner, hraw, hspan', hback⟩ := hbehind.exists_middle
  rw [hclose] at hraw
  obtain rfl := eq_closeParen_of_isSpelling hraw
  have hone : '('.utf8Size = 1 ∧ ')'.utf8Size = 1 := ⟨rfl, rfl⟩
  refine ⟨before, text, after, rfl, ?_, ?_, by simpa using hfront, ?_, ?_⟩
  · simp [hspan, hfront.size_eq_length]
  · simp [hspan', hfront.size_eq_length, hinner.size_eq_length, hone]
    omega
  · simpa [hfront.size_eq_length, hone] using hinner
  · have hposition : Text.size (before ++ '(' :: (text ++ [')'])) =
        0 + before.length + ['('].length + text.length + [')'].length := by
      simp [hfront.size_eq_length, hinner.size_eq_length, hone]
      omega
    rw [hposition]
    exact hback

/-- What the parts of a text around a group spell. -/
structure GroupText (before text after : Text) (context : ChainContext Word) (g : Chain Word) :
    Prop where
  front : ∀ {rest terminals}, Spells Base.word? rest terminals →
    Spells Base.word? (before ++ rest) (context.left ++ terminals)
  inner : Spells Base.word? text g.terminals
  back : Spells Base.word? after context.right
  bounds : Bounds after

theorem groupText_of_writes (hsource : source = before ++ '(' :: (text ++ ')' :: after))
    (hfront : CoversBefore ('(' :: (text ++ ')' :: after)) 0 before front)
    (hinner : CoversBefore (')' :: after) (Text.size (before ++ ['('])) text inner)
    (hback : CoversBefore [] (Text.size (before ++ '(' :: (text ++ [')']))) after back)
    (hleft : Writes (wordAt source) front context.left)
    (hg : Writes (wordAt source) inner g.terminals)
    (hright : Writes (wordAt source) back context.right) :
    GroupText before text after context g := by
  rw [← valueAt_word?, hsource] at hleft hg hright
  have hlast := hleft.isLiteral_getLast? context.isLiteral_left
  have hfirst := hright.isLiteral_head? context.isLiteral_right
  refine ⟨fun {rest terminals} hrest => ?_, ?_, ?_, ?_⟩
  · have hany : CoversBefore rest 0 before front := by
      refine hfront.switch fun last hmem raw hend => ?_
      have hliteral := hlast last hmem
      cases htoken : last.token with
      | literal base => simp [htoken, Token.isLiteral] at hliteral
      | _ => trivial
    exact hany.spells [] _ rfl hleft hrest
  · have hspells := (hinner.switch_of_bounds bounds_nil).spells (before ++ ['(']) (')' :: after) rfl
      (by simpa using hg) .nil
    simpa using hspells
  · have hspells := hback.spells (before ++ '(' :: (text ++ [')'])) [] rfl (by simpa using hright)
      .nil
    simpa using hspells
  · have hbounds := hback.bounds hfirst bounds_nil
    rwa [List.append_nil] at hbounds

namespace Text

theorem evaluate_of_spells {c : Chain Word} (hsize : source.size ≤ maxSize)
    (hspells : Spells Base.word? source c.terminals) (hn : c.nesting ≤ maxNesting) :
    evaluate source = (c.fold .value).mapError .eval := by
  have hread : Expr.ofText source = .ok c.tree :=
    Expr.ofText_eq_ok_iff.mpr ⟨hsize, c, hspells, hn, rfl⟩
  rw [Chain.fold_value, evaluate, hread]
  rfl

theorem evaluate_group_inner (h : GroupText before text after context g)
    (hsize : text.size ≤ maxSize) (hn : (context.plug g.group).nesting ≤ maxNesting) :
    evaluate text = (g.group.fold .value).mapError .eval := by
  have hle := context.le_nesting_plug g.group
  exact evaluate_of_spells hsize h.inner (Nat.le_of_succ_le (Nat.le_trans hle hn))

theorem evaluate_group_literal (h : GroupText before text after context g)
    (hn : (context.plug g.group).nesting ≤ maxNesting) (hg : g.group.fold .value = .ok value)
    (hraw : base.IsNumeral raw) (hword : base.word? raw = some value)
    (hsize : (before ++ (raw ++ after)).size ≤ maxSize) :
    evaluate (before ++ (raw ++ after)) =
      ((context.plug g.group).fold .value).mapError .eval := by
  have hliteral : evaluate (before ++ (raw ++ after)) =
      ((context.plug (.literal value)).fold .value).mapError .eval := by
    refine evaluate_of_spells hsize ?_ (Nat.le_trans (context.nesting_plug_le (Nat.zero_le _)) hn)
    rw [context.terminals_plug]
    have hspelling : (Token.literal base).IsSpelling raw := hraw
    exact h.front (.spelling hspelling h.bounds.ends (by simp [Token.terminal?, hword]) h.back)
  have hmeaning : (Operand.literal value).fold .value = g.group.fold .value := hg.symm
  rw [hliteral]
  exact congrArg (Except.mapError Error.eval) (context.fold_plug hmeaning id)

/-- Each group of an expression can be replaced by any literal of its value, if the text does not
become too long; and only a division by zero, in the group and so in the whole text, leaves the
group without a value. -/
theorem evaluate_group {e : Expr} (h : Expr.ofText source = .ok e)
    (hscan : Lexeme.scan source = .ok (front ++ opening :: later))
    (hopen : opening.token = .openParen) :
    ∃ inner closing back before text after, later = inner ++ closing :: back ∧
      closing.token = .closeParen ∧ Closed inner ∧
      source = before ++ '(' :: (text ++ ')' :: after) ∧ before.size = opening.span.first ∧
      size (before ++ '(' :: text) = closing.span.first ∧
      (∀ value, evaluate text = .ok value → ∀ (base : Base) (raw : Text), base.IsNumeral raw →
        base.word? raw = some value → size (before ++ (raw ++ after)) ≤ maxSize →
        evaluate (before ++ (raw ++ after)) = evaluate source) ∧
      ∀ error, evaluate text = .error error →
        error = .eval .divisionByZero ∧ evaluate source = .error (.eval .divisionByZero) := by
  obtain ⟨hsize, c, hspells, hn, -⟩ := Expr.ofText_eq_ok_iff.mp h
  have hsource := evaluate_of_spells hsize hspells hn
  obtain ⟨body, last, hscan', hlast, hw⟩ := spells_iff.mp ⟨hsize, hspells⟩
  rcases append_cons_eq_concat (Except.ok.inj (hscan.symm.trans hscan')) with
    ⟨-, rfl, -⟩ | ⟨mid, rfl, rfl⟩
  · rw [hlast] at hopen
    cases hopen
  · rw [valueAt_word?] at hw
    obtain ⟨context, g, group, back, hplug, hitems, hleft, hgw, hright⟩ :=
      exists_context_of_chain (c.first.exists_context hopen) (c.tail.exists_context hopen) hw
    obtain rfl : context.plug g.group = c := hplug
    obtain ⟨_, inner, closing, rfl, -, hclose, hinner⟩ := writes_group_iff.mp hgw
    obtain ⟨rfl, hmid⟩ := List.cons.inj hitems
    obtain rfl : mid = inner ++ closing :: back := by simpa using hmid
    obtain ⟨body, heq, hbody⟩ := covers_iff.mp (Lexeme.scan_eq_ok_iff.mp hscan').2
    obtain ⟨rfl, -⟩ := List.append_inj' heq rfl
    obtain ⟨before, text, after, hsplit, hfirst, hlast, hfront, htext, hback⟩ :=
      hbody.exists_group hopen hclose
    have hgroup := groupText_of_writes hsplit hfront htext hback hleft hinner hright
    have htext_size : size text ≤ maxSize := by
      rw [hsplit] at hsize
      simp only [size_append, size_cons] at hsize
      omega
    have hvalue := evaluate_group_inner hgroup htext_size hn
    refine ⟨inner, closing, back ++ [last], before, text, after, by simp, hclose, g.closed hinner,
      hsplit, hfirst, hlast, ?_, ?_⟩
    · intro value htext base raw hraw hword hsize
      rw [hvalue, mapError_eq_ok_iff] at htext
      rw [evaluate_group_literal hgroup hn htext hraw hword hsize, hsource]
    · intro error htext
      rw [hvalue, mapError_eq_error_iff] at htext
      obtain ⟨⟨⟩, hmeaning, rfl⟩ := htext
      have hwhole : (context.plug g.group).fold .value = .error .divisionByZero :=
        context.plug_absorbs Algebra.value_absorbs (x := g.group) hmeaning fun h => h
      exact ⟨rfl, by rw [hsource, hwhole]; rfl⟩

theorem evaluate_group_nested :
    evaluate ['1', '/', '0', 'X', '0', '4', '*', '3'] =
      evaluate ['1', '/', '(', '(', '2', ')', '+', '2', ')', '*', '3'] := by
  have hread : Expr.ofText ['1', '/', '(', '(', '2', ')', '+', '2', ')', '*', '3'] =
      .ok (.binary .mul (.binary .div (.literal 1) (.binary .add (.literal 2) (.literal 2)))
        (.literal 3)) := rfl
  have hscan : Lexeme.scan ['1', '/', '(', '(', '2', ')', '+', '2', ')', '*', '3'] =
      .ok ([⟨.literal .decimal, ⟨0, 0⟩⟩, ⟨.operator .div, ⟨1, 1⟩⟩] ++ ⟨.openParen, ⟨2, 2⟩⟩ ::
        ([⟨.openParen, ⟨3, 3⟩⟩, ⟨.literal .decimal, ⟨4, 4⟩⟩, ⟨.closeParen, ⟨5, 5⟩⟩,
          ⟨.operator .add, ⟨6, 6⟩⟩, ⟨.literal .decimal, ⟨7, 7⟩⟩] ++ ⟨.closeParen, ⟨8, 8⟩⟩ ::
        [⟨.operator .mul, ⟨9, 9⟩⟩, ⟨.literal .decimal, ⟨10, 10⟩⟩, ⟨.endOfText, ⟨11, 11⟩⟩])) := rfl
  obtain ⟨inner, closing, back, before, text, after, hlater, hclose, hclosed, hsplit, hfirst, hlast,
    hvalue, -⟩ := evaluate_group hread hscan rfl
  have hgroup : Closed ([⟨.openParen, ⟨3, 3⟩⟩, ⟨.literal .decimal, ⟨4, 4⟩⟩,
      ⟨.closeParen, ⟨5, 5⟩⟩] ++ [⟨.operator .add, ⟨6, 6⟩⟩, ⟨.literal .decimal, ⟨7, 7⟩⟩]) := by
    refine .append (.group rfl rfl (.cons ?_ ?_ .nil)) (.cons ?_ ?_ (.cons ?_ ?_ .nil)) <;> decide
  obtain ⟨-, rfl, -⟩ := hgroup.eq_of_append hclosed rfl hclose hlater
  have houter : ['1', '/'] ++ ['(', '(', '2', ')', '+', '2', ')', '*', '3'] =
      before ++ '(' :: (text ++ ')' :: after) := hsplit
  obtain ⟨rfl, hrest⟩ := append_inj_of_size houter hfirst.symm
  have hinner : ['(', '2', ')', '+', '2'] ++ [')', '*', '3'] = text ++ ')' :: after :=
    (List.cons.inj hrest).2
  have hsize : 1 + (1 + (1 + size text)) = 8 := hlast
  obtain ⟨rfl, hafter⟩ := append_inj_of_size hinner (by change 5 = size text; omega)
  obtain rfl := (List.cons.inj hafter).2
  exact hvalue 4 rfl .hexadecimal ['0', 'X', '0', '4']
    ⟨['0', 'X'], ['0', '4'], rfl, ⟨'X', rfl, rfl⟩, by simp,
      List.forall_mem_cons.mpr ⟨rfl, List.forall_mem_singleton.mpr rfl⟩⟩ rfl (by decide)

end Text

end WordCalc
