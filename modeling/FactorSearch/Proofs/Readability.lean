import FactorSearch.Proofs.Postorder
import FactorSearch.Proofs.TokenText

/-!
# The text of an expression tells the expression

The text of an expression is the word of its root, then the arguments in parentheses.  Words hold no
parentheses and no commas, so the expression can be read off the front of any text that goes on with
one of those (`eq_of_text_append`).  Main statement: stacks that show the same texts were built from
the same tokens, constants bit for bit (`tokens_eq_iff_rendered_eq`).
-/

namespace FactorSearch

/-- All constants among the tokens are finite. -/
def FiniteConstants (ts : List Token) : Prop := ∀ c, .constant c ∈ ts → c.isFinite = true

@[simp] theorem finiteConstants_append {ts us : List Token} :
    FiniteConstants (ts ++ us) ↔ FiniteConstants ts ∧ FiniteConstants us := by
  simp only [FiniteConstants, List.mem_append, or_imp, forall_and]

namespace Expr

variable {x y : Expr} {rest rest' : List Char}

/-! ## Roots and arguments -/

section Root

/-- The last token of the spelling. -/
def root : Expr → Token
  | feature f => .feature f
  | constant c => .constant c
  | unary op _ => .operator (.unary op)
  | binary op _ _ => .operator (.binary op)
  | rolling op _ _ => .operator (.rolling op)
  | pairRolling op _ _ _ => .operator (.pairRolling op)

/-- What stands behind the word of the root. -/
def arguments : Expr → List Char
  | feature _ => []
  | constant _ => []
  | unary _ x => '(' :: (x.text.toList ++ [')'])
  | binary _ x y => '(' :: (x.text.toList ++ ',' :: (y.text.toList ++ [')']))
  | rolling _ x days =>
    '(' :: (x.text.toList ++ ',' :: ((Token.deltaTimeText days).toList ++ [')']))
  | pairRolling _ x y days =>
    '(' :: (x.text.toList ++ ',' :: (y.text.toList ++ ',' ::
      ((Token.deltaTimeText days).toList ++ [')'])))

theorem toList_text (x : Expr) : x.text.toList = x.root.text.toList ++ x.arguments := by
  cases x <;> simp [text, call, root, arguments, Token.text, Operator.name]

theorem endsWord_arguments_append (x : Expr) (h : EndsWord rest) :
    EndsWord (x.arguments ++ rest) := by
  cases x with
  | feature f => exact h
  | constant c => exact h
  | _ => exact endsWord_cons rfl _

theorem isFinite_of_root (hx : FiniteConstants x.postorder) :
    ∀ c, x.root = .constant c → c.isFinite = true := by
  intro c hc
  cases x <;> cases hc
  exact hx c (List.mem_singleton_self _)

/-- The front of a text tells the root. -/
theorem root_eq_of_text_append (hx : FiniteConstants x.postorder)
    (hy : FiniteConstants y.postorder) (hrest : EndsWord rest) (hrest' : EndsWord rest')
    (h : x.text.toList ++ rest = y.text.toList ++ rest') :
    x.root = y.root ∧ x.arguments ++ rest = y.arguments ++ rest' := by
  rw [toList_text, toList_text, List.append_assoc, List.append_assoc] at h
  have hxroot := isFinite_of_root hx
  have hyroot := isFinite_of_root hy
  obtain ⟨hword, harguments⟩ := eq_of_word_append (Token.isWordChar_of_mem_text hxroot)
    (Token.isWordChar_of_mem_text hyroot) (endsWord_arguments_append x hrest)
    (endsWord_arguments_append y hrest') h
  exact ⟨Token.text_injective hxroot hyroot (String.toList_inj.mp hword), harguments⟩

end Root

/-! ## Reading a text back -/

section ReadBack

theorem deltaTime_eq_of_text_append {days days' : UInt32} (hrest : EndsWord rest)
    (hrest' : EndsWord rest') (h : (Token.deltaTimeText days).toList ++ rest =
      (Token.deltaTimeText days').toList ++ rest') : days = days' ∧ rest = rest' := by
  have hword (days : UInt32) : ∀ c ∈ (Token.deltaTimeText days).toList, isWordChar c = true :=
    Token.isWordChar_of_mem_text (t := .deltaTime days) nofun
  obtain ⟨hdays, hrests⟩ := eq_of_word_append (hword days) (hword days') hrest hrest' h
  exact ⟨Token.deltaTimeText_injective (String.toList_inj.mp hdays), hrests⟩

/-- An expression is read off the front of a text. -/
theorem eq_of_text_append (hx : FiniteConstants x.postorder) (hy : FiniteConstants y.postorder)
    (hrest : EndsWord rest) (hrest' : EndsWord rest')
    (h : x.text.toList ++ rest = y.text.toList ++ rest') : x = y ∧ rest = rest' := by
  have hclose (rest : List Char) : EndsWord (')' :: rest) := endsWord_cons rfl rest
  have hcomma (rest : List Char) : EndsWord (',' :: rest) := endsWord_cons rfl rest
  -- the roots agree, so that only the arguments are left to be compared
  induction x generalizing y rest rest' <;>
    obtain ⟨hroot, hargs⟩ := root_eq_of_text_append hx hy hrest hrest' h <;>
    cases y <;> cases hroot
  case feature.feature f => exact ⟨rfl, hargs⟩
  case constant.constant c => exact ⟨rfl, hargs⟩
  case unary.unary op x ih y =>
    simp only [postorder, finiteConstants_append] at hx hy
    simp only [arguments, List.cons_append, List.append_assoc, List.nil_append, List.cons.injEq,
      true_and] at hargs
    obtain ⟨rfl, hend⟩ := ih hx.1 hy.1 (hclose rest) (hclose rest') hargs
    exact ⟨rfl, List.tail_eq_of_cons_eq hend⟩
  case binary.binary op x₁ x₂ ih₁ ih₂ y₁ y₂ =>
    simp only [postorder, finiteConstants_append] at hx hy
    simp only [arguments, List.cons_append, List.append_assoc, List.nil_append, List.cons.injEq,
      true_and] at hargs
    obtain ⟨rfl, hsecond⟩ := ih₁ hx.1.1 hy.1.1 (hcomma _) (hcomma _) hargs
    obtain ⟨rfl, hend⟩ := ih₂ hx.1.2 hy.1.2 (hclose rest) (hclose rest')
      (List.tail_eq_of_cons_eq hsecond)
    exact ⟨rfl, List.tail_eq_of_cons_eq hend⟩
  case rolling.rolling op x days ih y days' =>
    simp only [postorder, finiteConstants_append] at hx hy
    simp only [arguments, List.cons_append, List.append_assoc, List.nil_append, List.cons.injEq,
      true_and] at hargs
    obtain ⟨rfl, hdays⟩ := ih hx.1 hy.1 (hcomma _) (hcomma _) hargs
    obtain ⟨rfl, hend⟩ := deltaTime_eq_of_text_append (hclose rest) (hclose rest')
      (List.tail_eq_of_cons_eq hdays)
    exact ⟨rfl, List.tail_eq_of_cons_eq hend⟩
  case pairRolling.pairRolling op x₁ x₂ days ih₁ ih₂ y₁ y₂ days' =>
    simp only [postorder, finiteConstants_append] at hx hy
    simp only [arguments, List.cons_append, List.append_assoc, List.nil_append, List.cons.injEq,
      true_and] at hargs
    obtain ⟨rfl, hsecond⟩ := ih₁ hx.1.1 hy.1.1 (hcomma _) (hcomma _) hargs
    obtain ⟨rfl, hdays⟩ := ih₂ hx.1.2 hy.1.2 (hcomma _) (hcomma _)
      (List.tail_eq_of_cons_eq hsecond)
    obtain ⟨rfl, hend⟩ := deltaTime_eq_of_text_append (hclose rest) (hclose rest')
      (List.tail_eq_of_cons_eq hdays)
    exact ⟨rfl, List.tail_eq_of_cons_eq hend⟩

/-- Expressions have texts of their own. -/
theorem text_inj (hx : FiniteConstants x.postorder) (hy : FiniteConstants y.postorder) :
    x.text = y.text ↔ x = y := by
  refine ⟨fun h => ?_, congrArg text⟩
  have hchars : x.text.toList ++ [] = y.text.toList ++ [] := by rw [h]
  exact (eq_of_text_append hx hy endsWord_nil endsWord_nil hchars).1

end ReadBack

/-! ## Stacks -/

section Stacks

theorem Item.rendered_injective {i j : Item} (hi : FiniteConstants i.spelling)
    (hj : FiniteConstants j.spelling) (h : i.rendered = j.rendered) : i = j := by
  cases i with
  | expr x =>
    cases j with
    | expr y =>
      have htext : x.text = y.text := (Rendered.expr.inj h).1
      rw [(text_inj hi hj).mp htext]
    | deltaTime days => cases h
  | deltaTime days =>
    cases j with
    | expr y => cases h
    | deltaTime days' => rw [Rendered.deltaTime.inj h]

namespace Stack

variable {s s' : Stack} {ts ts' : List Token}

theorem eq_of_rendered_eq (hs : FiniteConstants s.spelling) (hs' : FiniteConstants s'.spelling)
    (h : s.map Item.rendered = s'.map Item.rendered) : s = s' := by
  induction s generalizing s' with
  | nil => exact (List.map_eq_nil_iff.mp h.symm).symm
  | cons i s ih =>
    cases s' with
    | nil => cases h
    | cons j s' =>
      simp only [spelling, finiteConstants_append] at hs hs'
      obtain ⟨hij, hrest⟩ := List.cons_eq_cons.mp h
      rw [Item.rendered_injective hs.2 hs'.2 hij, ih hs.1 hs'.1 hrest]

/-- Stacks that accepted tokens with finite constants show the same texts, flags and delta times
exactly if the tokens are the same, constants bit for bit.  So are the tokens of complete
expressions that have the same text. -/
theorem tokens_eq_iff_rendered_eq (hts : FiniteConstants ts) (hts' : FiniteConstants ts')
    (h : pushAll [] ts = (s, ts.length, none)) (h' : pushAll [] ts' = (s', ts'.length, none)) :
    (s.map Item.rendered = s'.map Item.rendered ↔ ts = ts') ∧
      ∀ text, s.expression = .ok text → s'.expression = .ok text → ts = ts' := by
  have hspelling : s.spelling = ts := (pushAll_eq_iff.mp h).read.spelling
  have hspelling' : s'.spelling = ts' := (pushAll_eq_iff.mp h').read.spelling
  have hinjective (heq : s.map Item.rendered = s'.map Item.rendered) : ts = ts' := by
    have hs : s = s' := eq_of_rendered_eq (hspelling ▸ hts) (hspelling' ▸ hts') heq
    rw [← hspelling, hs, hspelling']
  refine ⟨⟨hinjective, ?_⟩, fun text htext htext' => hinjective ?_⟩
  · rintro rfl
    rw [← (pushAll_eq_iff.mp h).unique (pushAll_eq_iff.mp h')]
  · obtain ⟨x, rfl, hx, rfl⟩ := expression_eq_ok_iff.mp htext
    -- complete expressions are alone on their stacks
    obtain ⟨y, rfl, hy, heq⟩ := expression_eq_ok_iff.mp htext'
    simp [Item.rendered, hx, hy, heq]

/-- A sum of a series and a zero tells which of the two zeros it was built with, though they are
equal as values. -/
theorem tokens_eq_iff_rendered_eq_zeros :
    let sum (c : Binary64) : List Token :=
      [.feature .closePrice, .constant c, .operator (.binary .add)]
    let stack (c : Binary64) : Stack := [.expr (.binary .add (.feature .closePrice) (.constant c))]
    (0.0 : Binary64).ieeeEq (-0.0) = true ∧
      FiniteConstants (sum 0.0) ∧ FiniteConstants (sum (-0.0)) ∧
      pushAll [] (sum 0.0) = (stack 0.0, 3, none) ∧
      pushAll [] (sum (-0.0)) = (stack (-0.0), 3, none) ∧
      (stack 0.0).map Item.rendered ≠ (stack (-0.0)).map Item.rendered ∧
      (stack 0.0).expression ≠ (stack (-0.0)).expression := by
  intro sum stack
  have hfinite (c : Binary64) (hc : c.isFinite = true) : FiniteConstants (sum c) := by
    intro c' hc'
    have heq : c' = c := by simpa [sum] using hc'
    rw [heq]
    exact hc
  have hzero : FiniteConstants (sum 0.0) := hfinite 0.0 (by decide +kernel)
  have hminus : FiniteConstants (sum (-0.0)) := hfinite (-0.0) (by decide +kernel)
  have hne : sum 0.0 ≠ sum (-0.0) := by decide +kernel
  have haccepted (c : Binary64) : pushAll [] (sum c) = (stack c, 3, none) := rfl
  obtain ⟨hrendered, hexpression⟩ :=
    tokens_eq_iff_rendered_eq hzero hminus (haccepted 0.0) (haccepted (-0.0))
  refine ⟨by decide +kernel, hzero, hminus, haccepted _, haccepted _, ?_, ?_⟩
  · exact fun heq => hne (hrendered.mp heq)
  · exact fun heq => hne (hexpression _ rfl heq.symm)

end Stack

end Stacks

end Expr

end FactorSearch
