import PlanRunner.Proofs.Expression.Syntax

/-!
# PlanRunner — expressions have the value of their tree

Evaluation reads and computes at once, from left to right, and has no tree. It takes from the front
of a text the tokens of one, as many as may follow each other, and the value is that of the tree. So
a text has a value exactly if it is written from a tree without a division by zero. The grammar does
not bound the fuel; the reader has enough of it for every text, because each character pays for four
calls and no more than three follow each other without one being read.

* `ReadsTrees`, `readsTrees` — what is read and computed is a tree with its value;
* `Expr.exists_expr` — a tree with a value is read and computed, and what comes after it is left;
* `evaluate_eq_ok_iff` — the values of texts are those of their trees.
-/

namespace PlanRunner.Expression

-- ---------------------------------------------------------------------------
-- What is read has a tree
-- ---------------------------------------------------------------------------

/-- After these tokens at the front of a text the rest is left. -/
def Leads (ts : List Token) (cs rest : List Char) : Prop :=
  ∀ more, Spelled more rest → Spelled (ts ++ more) cs

/-- What leads to a rest, and on from there, leads on. -/
theorem Leads.append {ts ts' : List Token} {cs rest rest' : List Char} (h : Leads ts cs rest)
    (h' : Leads ts' rest rest') : Leads (ts ++ ts') cs rest' := by
  intro more hmore
  rw [List.append_assoc]
  exact h _ (h' more hmore)

/-- White space leads on by itself. -/
theorem Leads.skip (cs : List Char) : Leads [] cs (skip cs) := fun _ hmore => hmore.of_skip

/-- A token leads on to what comes after it. -/
theorem Leads.token {t : Token} {cs rest : List Char} (hskip : Expression.skip cs = t.text ++ rest)
    (hends : t.Ends rest) : Leads [t] cs rest := fun _ hmore => .of_skip_eq hskip hends hmore

/-- What is read as a number. -/
theorem exists_numeral {cs rest : List Char} {x : Float} (h : number cs = .ok (x, rest)) :
    ∃ n : Numeral, n.value = x ∧ cs = n.digits ++ rest ∧ (Token.number n).Ends rest := by
  unfold number at h
  dsimp only at h
  -- the characters that were taken are a number, and what follows does not go on with it
  split at h
  · exact absurd h (by simp)
  · split at h
    · rename_i hreads
      obtain ⟨rfl, rfl⟩ := Prod.mk.inj (Except.ok.inj h)
      refine ⟨⟨cs.takeWhile isNumberChar, _, fun _ => List.mem_takeWhile_imp, hreads⟩, rfl,
        List.takeWhile_append_dropWhile.symm, fun c hc => ?_⟩
      have hstop := List.head?_dropWhile_not isNumberChar cs
      rw [Option.mem_def.mp hc] at hstop
      exact hstop
    · exact absurd h (by simp)

/-- With so much fuel, what is read and computed is a tree with its value. -/
structure ReadsTrees (fuel : Nat) : Prop where
  expr : ∀ {cs rest : List Char} {x : Float}, expr fuel cs = .ok (x, rest) →
    ∃ e : Expr, e.value? = some x ∧ Leads e.tokens cs rest
  terms : ∀ {acc : Float} {cs rest : List Char} {x : Float}, exprRest fuel acc cs = .ok (x, rest) →
    ∃ ts : Terms, ts.value? acc = some x ∧ Leads ts.tokens cs rest
  term : ∀ {cs rest : List Char} {x : Float}, term fuel cs = .ok (x, rest) →
    ∃ t : Term, t.value? = some x ∧ Leads t.tokens cs rest
  factors : ∀ {acc : Float} {cs rest : List Char} {x : Float},
    termRest fuel acc cs = .ok (x, rest) →
      ∃ fs : Factors, fs.value? acc = some x ∧ Leads fs.tokens cs rest
  factor : ∀ {cs rest : List Char} {x : Float}, factor fuel cs = .ok (x, rest) →
    ∃ f : Factor, f.value? = some x ∧ Leads f.tokens cs rest

variable {fuel : Nat} {acc x : Float} {cs rest : List Char}

/-- A sum is read by its first term and what is added to it. -/
theorem ReadsTrees.expr_succ (h : ReadsTrees fuel)
    (hread : Expression.expr (fuel + 1) cs = .ok (x, rest)) :
    ∃ e : Expr, e.value? = some x ∧ Leads e.tokens cs rest := by
  unfold Expression.expr at hread
  split at hread
  · exact absurd hread (by simp)
  · rename_i y middle hterm
    obtain ⟨t, hvalue, hleads⟩ := h.term hterm
    obtain ⟨ts, hvalues, hleads'⟩ := h.terms hread
    exact ⟨.sum t ts, by simp [Expr.value?, hvalue, hvalues], hleads.append hleads'⟩

/-- One more term of a sum, and those that follow it. -/
theorem ReadsTrees.terms_cons (h : ReadsTrees fuel) (op : SumOp) {middle middle' : List Char}
    {y : Float} (hskip : skip cs = op.char :: middle)
    (hterm : Expression.term fuel middle = .ok (y, middle'))
    (hread : exprRest fuel (op.combine acc y) middle' = .ok (x, rest)) :
    ∃ ts : Terms, ts.value? acc = some x ∧ Leads ts.tokens cs rest := by
  obtain ⟨t, hvalue, hleads⟩ := h.term hterm
  obtain ⟨ts, hvalues, hleads'⟩ := h.terms hread
  have htoken : Leads [.sum op] cs middle := .token hskip trivial
  exact ⟨.cons op t ts, by simp [Terms.value?, hvalue, hvalues],
    htoken.append (hleads.append hleads')⟩

/-- What is added is read term by term. -/
theorem ReadsTrees.terms_succ (h : ReadsTrees fuel)
    (hread : exprRest (fuel + 1) acc cs = .ok (x, rest)) :
    ∃ ts : Terms, ts.value? acc = some x ∧ Leads ts.tokens cs rest := by
  unfold exprRest at hread
  -- a plus, a minus, or the end of the sum
  split at hread
  · rename_i hskip
    split at hread
    · exact absurd hread (by simp)
    · rename_i hterm
      exact h.terms_cons .plus hskip hterm hread
  · rename_i hskip
    split at hread
    · exact absurd hread (by simp)
    · rename_i hterm
      exact h.terms_cons .minus hskip hterm hread
  · obtain ⟨rfl, rfl⟩ := Prod.mk.inj (Except.ok.inj hread)
    exact ⟨.nil, rfl, .skip cs⟩

/-- A product is read by its first factor and what it is multiplied with. -/
theorem ReadsTrees.term_succ (h : ReadsTrees fuel)
    (hread : Expression.term (fuel + 1) cs = .ok (x, rest)) :
    ∃ t : Term, t.value? = some x ∧ Leads t.tokens cs rest := by
  unfold Expression.term at hread
  split at hread
  · exact absurd hread (by simp)
  · rename_i y middle hfactor
    obtain ⟨f, hvalue, hleads⟩ := h.factor hfactor
    obtain ⟨fs, hvalues, hleads'⟩ := h.factors hread
    exact ⟨.product f fs, by simp [Term.value?, hvalue, hvalues], hleads.append hleads'⟩

/-- One more factor of a product, and those that follow it. -/
theorem ReadsTrees.factors_cons (h : ReadsTrees fuel) (op : ProductOp) {middle middle' : List Char}
    {y acc' : Float} (hskip : skip cs = op.char :: middle)
    (hfactor : Expression.factor fuel middle = .ok (y, middle'))
    (hcombine : op.combine? acc y = some acc')
    (hread : termRest fuel acc' middle' = .ok (x, rest)) :
    ∃ fs : Factors, fs.value? acc = some x ∧ Leads fs.tokens cs rest := by
  obtain ⟨f, hvalue, hleads⟩ := h.factor hfactor
  obtain ⟨fs, hvalues, hleads'⟩ := h.factors hread
  have htoken : Leads [.product op] cs middle := .token hskip trivial
  exact ⟨.cons op f fs, by simp [Factors.value?, hvalue, hcombine, hvalues],
    htoken.append (hleads.append hleads')⟩

/-- What a product goes on with is read factor by factor; a division by zero is no value. -/
theorem ReadsTrees.factors_succ (h : ReadsTrees fuel)
    (hread : termRest (fuel + 1) acc cs = .ok (x, rest)) :
    ∃ fs : Factors, fs.value? acc = some x ∧ Leads fs.tokens cs rest := by
  unfold termRest at hread
  split at hread
  · rename_i hskip
    split at hread
    · exact absurd hread (by simp)
    · rename_i hfactor
      exact h.factors_cons .times hskip hfactor rfl hread
  · rename_i hskip
    split at hread
    · exact absurd hread (by simp)
    · rename_i hfactor
      split at hread
      · exact absurd hread (by simp)
      · rename_i hzero
        exact h.factors_cons .divided hskip hfactor (if_neg hzero) hread
  · obtain ⟨rfl, rfl⟩ := Prod.mk.inj (Except.ok.inj hread)
    exact ⟨.nil, rfl, .skip cs⟩

/-- A factor is a sign and a factor, a sum in parentheses, or a number. -/
theorem ReadsTrees.factor_succ (h : ReadsTrees fuel)
    (hread : Expression.factor (fuel + 1) cs = .ok (x, rest)) :
    ∃ f : Factor, f.value? = some x ∧ Leads f.tokens cs rest := by
  unfold Expression.factor at hread
  split at hread
  · -- the sign
    rename_i middle hskip
    have htoken : Leads [.sum .minus] cs middle := .token hskip trivial
    split at hread
    · exact absurd hread (by simp)
    · rename_i hfactor
      obtain ⟨rfl, rfl⟩ := Prod.mk.inj (Except.ok.inj hread)
      obtain ⟨f, hvalue, hleads⟩ := h.factor hfactor
      exact ⟨.negated f, by simp [Factor.value?, hvalue], htoken.append hleads⟩
  · rename_i middle hskip
    have hopening : Leads [.opening] cs middle := .token hskip trivial
    split at hread
    · exact absurd hread (by simp)
    · rename_i hexpr
      split at hread
      · rename_i hskip'
        obtain ⟨rfl, rfl⟩ := Prod.mk.inj (Except.ok.inj hread)
        obtain ⟨e, hvalue, hleads⟩ := h.expr hexpr
        have hclosing : Leads [.closing] _ _ := .token hskip' trivial
        exact ⟨.parens e, hvalue, hopening.append (hleads.append hclosing)⟩
      · exact absurd hread (by simp)
  · obtain ⟨n, rfl, hskip, hends⟩ := exists_numeral hread
    exact ⟨.number n, rfl, .token hskip hends⟩

/-- **What is read and computed is a tree with its value.** -/
theorem readsTrees (fuel : Nat) : ReadsTrees fuel := by
  -- Induction on the fuel: without any nothing is read, and each step hands on less.
  induction fuel with
  | zero =>
    refine ⟨fun h => ?_, fun h => ?_, fun h => ?_, fun h => ?_, fun h => ?_⟩
    · exact absurd h (by simp [expr])
    · exact absurd h (by simp [exprRest])
    · exact absurd h (by simp [term])
    · exact absurd h (by simp [termRest])
    · exact absurd h (by simp [factor])
  | succ fuel ih =>
    exact ⟨ih.expr_succ, ih.terms_succ, ih.term_succ, ih.factors_succ, ih.factor_succ⟩

-- ---------------------------------------------------------------------------
-- What has a tree is read
-- ---------------------------------------------------------------------------

/-- A numeral is read as its number, wherever no digit or point follows. -/
theorem number_append (n : Numeral) {rest : List Char} (hends : (Token.number n).Ends rest) :
    number (n.digits ++ rest) = .ok (n.value, rest) := by
  have htake := Json.takeWhile_append_of_head n.isNumberChar hends
  have hdrop := Json.dropWhile_append_of_head n.isNumberChar hends
  have hempty : n.digits.isEmpty = false := by simp [n.digits_ne_nil]
  unfold number
  simp only [htake, hdrop, hempty, n.reads, Bool.false_eq_true, if_false]

/-- The first character of a text tells its first token, if that is no number. -/
theorem Spelled.head?_of_mark {ts : List Token} {t : Token} {c : Char} {cs tail : List Char}
    (h : Spelled ts cs) (hskip : skip cs = c :: tail) (hmark : mark? c = some t) :
    ts.head? = some t := by
  cases ts with
  | nil =>
    rw [h.skip_eq_nil] at hskip
    exact absurd hskip (by simp)
  | cons t' ts =>
    obtain ⟨rest, hskip', -⟩ := h.skip_eq
    rw [hskip] at hskip'
    -- a mark spells itself, and no number starts with one
    rcases t'.mark_or_number with ⟨c', htext, hmark'⟩ | ⟨n, rfl⟩
    · rw [htext] at hskip'
      obtain ⟨rfl, -⟩ := List.cons.inj hskip'
      rw [List.head?_cons, ← hmark', hmark]
    · exact absurd hskip'.symm (n.not_mark hmark rest tail)

/-- A sum that nothing is added to is what it has come to. -/
theorem exprRest_of_endsSum {more : List Token} (h : Spelled more cs) (hmore : EndsSum more)
    (fuel : Nat) (acc : Float) : exprRest (fuel + 1) acc cs = .ok (acc, skip cs) := by
  unfold exprRest
  split
  · rename_i hskip
    exact absurd (h.head?_of_mark hskip rfl) (hmore.2 .plus)
  · rename_i hskip
    exact absurd (h.head?_of_mark hskip rfl) (hmore.2 .minus)
  · rfl

/-- A product that nothing is multiplied with is what it has come to. -/
theorem termRest_of_endsProduct {more : List Token} (h : Spelled more cs)
    (hmore : EndsProduct more) (fuel : Nat) (acc : Float) :
    termRest (fuel + 1) acc cs = .ok (acc, skip cs) := by
  unfold termRest
  split
  · rename_i hskip
    exact absurd (h.head?_of_mark hskip rfl) (hmore .times)
  · rename_i hskip
    exact absurd (h.head?_of_mark hskip rfl) (hmore .divided)
  · rfl

/-- A further term is added, or taken away. -/
theorem exprRest_cons {op : SumOp} {middle middle' : List Char} {y : Float}
    (hskip : skip cs = op.char :: middle) (hterm : term fuel middle = .ok (y, middle')) :
    exprRest (fuel + 1) acc cs = exprRest fuel (op.combine acc y) middle' := by
  cases op with
  | plus =>
    have hskip' : skip cs = '+' :: middle := hskip
    rw [exprRest, hskip']
    simp only [hterm]
    rfl
  | minus =>
    have hskip' : skip cs = '-' :: middle := hskip
    rw [exprRest, hskip']
    simp only [hterm]
    rfl

/-- A further factor is multiplied with, or divided by unless it is zero. -/
theorem termRest_cons {op : ProductOp} {middle middle' : List Char} {y acc' : Float}
    (hskip : skip cs = op.char :: middle) (hfactor : factor fuel middle = .ok (y, middle'))
    (hcombine : op.combine? acc y = some acc') :
    termRest (fuel + 1) acc cs = termRest fuel acc' middle' := by
  cases op with
  | times =>
    have hskip' : skip cs = '*' :: middle := hskip
    obtain rfl := Option.some.inj hcombine
    rw [termRest, hskip']
    simp only [hfactor]
  | divided =>
    have hskip' : skip cs = '/' :: middle := hskip
    have hquotient : (if y == 0.0 then none else some (acc / y)) = some acc' := hcombine
    -- the quotient is a value, so the divisor is not zero
    split at hquotient
    · exact absurd hquotient (by simp)
    · rename_i hzero
      obtain rfl := Option.some.inj hquotient
      rw [termRest, hskip']
      simp only [hfactor, if_neg hzero]

/-- A sign negates its factor. -/
theorem factor_negated {middle rest : List Char} {y : Float} (hskip : skip cs = '-' :: middle)
    (hfactor : factor fuel middle = .ok (y, rest)) : factor (fuel + 1) cs = .ok (-y, rest) := by
  rw [factor, hskip]
  simp only [hfactor]

/-- Parentheses have the value of their sum. -/
theorem factor_parens {middle middle' rest : List Char} (hskip : skip cs = '(' :: middle)
    (hexpr : expr fuel middle = .ok (x, middle')) (hskip' : skip middle' = ')' :: rest) :
    factor (fuel + 1) cs = .ok (x, rest) := by
  rw [factor, hskip]
  simp only [hexpr, hskip']

/-- A numeral has the value of its number. -/
theorem factor_number {n : Numeral} {rest : List Char} (hskip : skip cs = n.digits ++ rest)
    (hends : (Token.number n).Ends rest) : factor (fuel + 1) cs = .ok (n.value, rest) := by
  unfold factor
  split
  · rename_i heq
    exact absurd (hskip.symm.trans heq) (n.not_mark rfl _ _)
  · rename_i heq
    exact absurd (hskip.symm.trans heq) (n.not_mark rfl _ _)
  · rw [hskip, number_append n hends]

-- Each character pays for four calls: a sum, its first term, that one's first factor, and what
-- comes after the character.

mutual

/-- A tree with a value is read and computed, and what comes after it is left. -/
theorem Expr.exists_expr : ∀ {e : Expr} {x : Float} {more : List Token} {cs : List Char}
    {fuel : Nat}, e.value? = some x → Spelled (e.tokens ++ more) cs → EndsSum more →
      4 * cs.length + 3 ≤ fuel →
        ∃ rest, expr fuel cs = .ok (x, rest) ∧ Spelled more rest ∧ rest.length < cs.length
  | .sum t ts, x, more, cs, fuel + 1, hvalue, hspelled, hmore, hfuel => by
    rw [Expr.tokens, List.append_assoc] at hspelled
    obtain ⟨y, hterm, hterms⟩ := Option.bind_eq_some_iff.mp hvalue
    obtain ⟨middle, hread, hmiddle, hlt⟩ :=
      Term.exists_term hterm hspelled (hmore.terms ts) (show 4 * cs.length + 2 ≤ fuel by omega)
    obtain ⟨rest, hread', hrest, hle⟩ := Terms.exists_exprRest hterms hmiddle hmore
      (show 4 * middle.length + 1 ≤ fuel by omega)
    refine ⟨rest, ?_, hrest, by omega⟩
    rw [expr, hread]
    exact hread'

/-- Terms with a value are read and added, one after the other. -/
theorem Terms.exists_exprRest : ∀ {ts : Terms} {acc x : Float} {more : List Token}
    {cs : List Char} {fuel : Nat}, ts.value? acc = some x → Spelled (ts.tokens ++ more) cs →
      EndsSum more → 4 * cs.length + 1 ≤ fuel →
        ∃ rest, exprRest fuel acc cs = .ok (x, rest) ∧ Spelled more rest ∧
          rest.length ≤ cs.length
  | .nil, acc, x, more, cs, fuel + 1, hvalue, hspelled, hmore, hfuel => by
    obtain rfl := Option.some.inj hvalue
    exact ⟨skip cs, exprRest_of_endsSum hspelled hmore fuel acc, hspelled.spelled_skip,
      length_skip_le cs⟩
  | .cons op t ts, acc, x, more, cs, fuel + 1, hvalue, hspelled, hmore, hfuel => by
    rw [Terms.tokens, List.cons_append, List.append_assoc] at hspelled
    obtain ⟨middle, hskip, -, hmiddle⟩ := hspelled.skip_eq
    have hlt := Spelled.length_lt hskip
    obtain ⟨y, hterm, hterms⟩ := Option.bind_eq_some_iff.mp hvalue
    obtain ⟨middle', hread, hmiddle', hlt'⟩ :=
      Term.exists_term hterm hmiddle (hmore.terms ts) (show 4 * middle.length + 2 ≤ fuel by omega)
    obtain ⟨rest, hread', hrest, hle⟩ := Terms.exists_exprRest hterms hmiddle' hmore
      (show 4 * middle'.length + 1 ≤ fuel by omega)
    exact ⟨rest, (exprRest_cons hskip hread).trans hread', hrest, by omega⟩

/-- A product with a value is read and computed. -/
theorem Term.exists_term : ∀ {t : Term} {x : Float} {more : List Token} {cs : List Char}
    {fuel : Nat}, t.value? = some x → Spelled (t.tokens ++ more) cs → EndsProduct more →
      4 * cs.length + 2 ≤ fuel →
        ∃ rest, term fuel cs = .ok (x, rest) ∧ Spelled more rest ∧ rest.length < cs.length
  | .product f fs, x, more, cs, fuel + 1, hvalue, hspelled, hmore, hfuel => by
    rw [Term.tokens, List.append_assoc] at hspelled
    obtain ⟨y, hfactor, hfactors⟩ := Option.bind_eq_some_iff.mp hvalue
    obtain ⟨middle, hread, hmiddle, hlt⟩ :=
      Factor.exists_factor hfactor hspelled (show 4 * cs.length + 1 ≤ fuel by omega)
    obtain ⟨rest, hread', hrest, hle⟩ := Factors.exists_termRest hfactors hmiddle hmore
      (show 4 * middle.length + 1 ≤ fuel by omega)
    refine ⟨rest, ?_, hrest, by omega⟩
    rw [term, hread]
    exact hread'

/-- Factors with values are read and multiplied, one after the other. -/
theorem Factors.exists_termRest : ∀ {fs : Factors} {acc x : Float} {more : List Token}
    {cs : List Char} {fuel : Nat}, fs.value? acc = some x → Spelled (fs.tokens ++ more) cs →
      EndsProduct more → 4 * cs.length + 1 ≤ fuel →
        ∃ rest, termRest fuel acc cs = .ok (x, rest) ∧ Spelled more rest ∧
          rest.length ≤ cs.length
  | .nil, acc, x, more, cs, fuel + 1, hvalue, hspelled, hmore, hfuel => by
    obtain rfl := Option.some.inj hvalue
    exact ⟨skip cs, termRest_of_endsProduct hspelled hmore fuel acc, hspelled.spelled_skip,
      length_skip_le cs⟩
  | .cons op f fs, acc, x, more, cs, fuel + 1, hvalue, hspelled, hmore, hfuel => by
    rw [Factors.tokens, List.cons_append, List.append_assoc] at hspelled
    obtain ⟨middle, hskip, -, hmiddle⟩ := hspelled.skip_eq
    have hlt := Spelled.length_lt hskip
    obtain ⟨y, hfactor, hfactors⟩ := Option.bind_eq_some_iff.mp hvalue
    obtain ⟨acc', hcombine, hfactors'⟩ := Option.bind_eq_some_iff.mp hfactors
    obtain ⟨middle', hread, hmiddle', hlt'⟩ :=
      Factor.exists_factor hfactor hmiddle (show 4 * middle.length + 1 ≤ fuel by omega)
    obtain ⟨rest, hread', hrest, hle⟩ := Factors.exists_termRest hfactors' hmiddle' hmore
      (show 4 * middle'.length + 1 ≤ fuel by omega)
    exact ⟨rest, (termRest_cons hskip hread hcombine).trans hread', hrest, by omega⟩

/-- A factor with a value is read and computed, whatever comes after it. -/
theorem Factor.exists_factor : ∀ {f : Factor} {x : Float} {more : List Token} {cs : List Char}
    {fuel : Nat}, f.value? = some x → Spelled (f.tokens ++ more) cs → 4 * cs.length + 1 ≤ fuel →
      ∃ rest, factor fuel cs = .ok (x, rest) ∧ Spelled more rest ∧ rest.length < cs.length
  | .negated f, x, more, cs, fuel + 1, hvalue, hspelled, hfuel => by
    rw [Factor.tokens, List.cons_append] at hspelled
    obtain ⟨middle, hskip, -, hmiddle⟩ := hspelled.skip_eq
    have hlt := Spelled.length_lt hskip
    obtain ⟨y, hfactor, rfl⟩ := Option.map_eq_some_iff.mp hvalue
    obtain ⟨rest, hread, hrest, hlt'⟩ :=
      Factor.exists_factor hfactor hmiddle (show 4 * middle.length + 1 ≤ fuel by omega)
    exact ⟨rest, factor_negated hskip hread, hrest, by omega⟩
  | .parens e, x, more, cs, fuel + 1, hvalue, hspelled, hfuel => by
    rw [Factor.tokens, List.cons_append, List.append_assoc] at hspelled
    obtain ⟨middle, hskip, -, hmiddle⟩ := hspelled.skip_eq
    have hlt := Spelled.length_lt hskip
    obtain ⟨middle', hread, hmiddle', hlt'⟩ :=
      Expr.exists_expr hvalue hmiddle (.closing more) (show 4 * middle.length + 3 ≤ fuel by omega)
    obtain ⟨rest, hskip', -, hrest⟩ := hmiddle'.skip_eq
    have hlt'' := Spelled.length_lt hskip'
    exact ⟨rest, factor_parens hskip hread hskip', hrest, by omega⟩
  | .number n, x, more, cs, fuel + 1, hvalue, hspelled, hfuel => by
    obtain rfl := Option.some.inj hvalue
    obtain ⟨rest, hskip, hends, hrest⟩ := Spelled.skip_eq hspelled
    exact ⟨rest, factor_number hskip hends, hrest, Spelled.length_lt hskip⟩

end

-- ---------------------------------------------------------------------------
-- Whole texts
-- ---------------------------------------------------------------------------

/-- A text evaluates to the value of a tree it is written from. -/
theorem evaluateChars_eq_ok_iff {cs : List Char} {x : Float} :
    evaluateChars cs = .ok x ↔ ∃ e : Expr, e.Derives cs ∧ e.value? = some x := by
  unfold evaluateChars
  -- what was read is a tree, and the fuel is enough for every tree
  constructor
  · intro h
    split at h
    · exact absurd h (by simp)
    · rename_i rest hread
      split at h
      · rename_i hskip
        obtain rfl := Except.ok.inj h
        obtain ⟨e, hvalue, hleads⟩ := (readsTrees _).expr hread
        have hspelled : Spelled e.tokens cs := by
          have hempty : Spelled [] rest := .of_skip (hskip ▸ .nil .nil)
          simpa using hleads [] hempty
        exact ⟨e, hspelled, hvalue⟩
      · exact absurd h (by simp)
  · rintro ⟨e, hspelled, hvalue⟩
    have hspelled' : Spelled (e.tokens ++ []) cs := by
      rw [List.append_nil]
      exact hspelled
    obtain ⟨rest, hread, hrest, -⟩ := Expr.exists_expr hvalue hspelled' .nil
      (show 4 * cs.length + 3 ≤ 4 * cs.length + 4 by omega)
    rw [hread]
    simp only [hrest.skip_eq_nil]

/-- **A text has a value exactly if it is written from a tree that has it, and it is written from
one tree at most. Any other text has a fault.** -/
theorem evaluate_eq_ok_iff (s : String) :
    (∀ x, evaluate s = .ok x ↔ ∃ e : Expr, e.Derives s.toList ∧ e.value? = some x) ∧
    (∀ e e' : Expr, e.Derives s.toList → e'.Derives s.toList → e = e') ∧
    ((∀ e : Expr, e.Derives s.toList → e.value? = none) ↔ ∃ fault, evaluate s = .error fault) := by
  -- a text that is no expression, and one without a value, are left with an error
  refine ⟨fun x => evaluateChars_eq_ok_iff, fun e e' h h' => h.unique h', ?_, ?_⟩
  · intro hnone
    cases hevaluate : evaluate s with
    | error fault => exact ⟨fault, rfl⟩
    | ok x =>
      obtain ⟨e, hderives, hvalue⟩ := evaluateChars_eq_ok_iff.mp hevaluate
      exact absurd ((hnone e hderives).symm.trans hvalue) (by simp)
  · rintro ⟨fault, hfault⟩ e hderives
    rw [Option.eq_none_iff_forall_ne_some]
    intro x hvalue
    have hevaluate : evaluate s = .ok x := evaluateChars_eq_ok_iff.mpr ⟨e, hderives, hvalue⟩
    exact absurd (hfault.symm.trans hevaluate) (by simp)

/-- A minus before parentheses, a product and a quotient after them, a number that ends with a point
and one that starts with it, and white space of several kinds. -/
theorem evaluate_spaced :
    let text := " -(1 +\t.5) * 4/\u00a02. "
    ∃ e : Expr, e.Derives text.toList ∧ e.value? = some (-3.0) ∧
      ∀ e' : Expr, e'.Derives text.toList → e' = e := by
  intro text
  have hvalue : evaluate text = .ok (-3.0) := by decide +kernel
  obtain ⟨hvalues, hunique, -⟩ := evaluate_eq_ok_iff text
  obtain ⟨e, hderives, hvalue'⟩ := (hvalues (-3.0)).mp hvalue
  exact ⟨e, hderives, hvalue', fun e' hderives' => hunique e' e hderives' hderives⟩

end PlanRunner.Expression
