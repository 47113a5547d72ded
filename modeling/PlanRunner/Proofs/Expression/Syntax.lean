import PlanRunner.Layer.Expression
import PlanRunner.Proofs.Json.Token

/-!
# PlanRunner — the syntax of arithmetic expressions

A text is an expression if it is written from the tokens of a syntax tree, with white space before,
between and after them. A number takes as many digits and points as there are. The tree of a text is
unique: the tokens are the only ones, because a token ends where its kind says, and the tree is the
only one with these tokens, because nothing that may follow a product continues it, and likewise for
a sum.

* `Spelled` — the texts of a list of tokens;
* `Expr.tokens`, `Expr.value?` — what a tree is written from, and what it comes to;
* `Spelled.tokens_unique`, `Expr.tokens_append_inj` — the tokens and the tree are unique.
-/

namespace PlanRunner.Expression

/-- White space. -/
def IsBlank (cs : List Char) : Prop := ∀ c ∈ cs, Text.isBlankChar c = true

-- ---------------------------------------------------------------------------
-- Tokens
-- ---------------------------------------------------------------------------

/-- The operators of a sum. -/
inductive SumOp where
  | plus
  | minus
  deriving DecidableEq

/-- The operators of a product. -/
inductive ProductOp where
  | times
  | divided
  deriving DecidableEq

/-- Digits and points that are read as a number. -/
@[ext] structure Numeral where
  digits : List Char
  value : Float
  isNumberChar : ∀ c ∈ digits, isNumberChar c = true
  reads : Number.readUnsigned? false digits = some value

/-- The tokens of an expression. -/
inductive Token where
  | sum (op : SumOp)
  | product (op : ProductOp)
  | opening
  | closing
  | number (n : Numeral)

/-- The sign of addition or subtraction. -/
def SumOp.char : SumOp → Char
  | .plus => '+'
  | .minus => '-'

/-- The sign of multiplication or division. -/
def ProductOp.char : ProductOp → Char
  | .times => '*'
  | .divided => '/'

/-- The characters of a token. -/
def Token.text : Token → List Char
  | .sum op => [op.char]
  | .product op => [op.char]
  | .opening => ['(']
  | .closing => [')']
  | .number n => n.digits

/-- After a number comes no further digit or point. -/
def Token.Ends : Token → List Char → Prop
  | .number _, rest => ∀ c ∈ rest.head?, Expression.isNumberChar c = false
  | _, _ => True

/-- The texts that are written from tokens, with white space before, between and after them. -/
inductive Spelled : List Token → List Char → Prop where
  | nil {gap : List Char} (hgap : IsBlank gap) : Spelled [] gap
  | cons {t : Token} {ts : List Token} {gap rest : List Char} (hgap : IsBlank gap)
      (hends : t.Ends rest) (hrest : Spelled ts rest) :
      Spelled (t :: ts) (gap ++ (t.text ++ rest))

theorem IsBlank.nil : IsBlank [] := by simp [IsBlank]

/-- Gaps can be put together. -/
theorem IsBlank.append {gap gap' : List Char} (h : IsBlank gap) (h' : IsBlank gap') :
    IsBlank (gap ++ gap') :=
  List.forall_mem_append.mpr ⟨h, h'⟩

/-- White space in front is part of the text. -/
theorem Spelled.gap_append {ts : List Token} {gap cs : List Char} (hgap : IsBlank gap)
    (h : Spelled ts cs) : Spelled ts (gap ++ cs) := by
  cases h with
  | nil hgap' => exact .nil (hgap.append hgap')
  | cons hgap' hends hrest =>
    rw [← List.append_assoc]
    exact .cons (hgap.append hgap') hends hrest

/-- Any text is some white space and what is left after it is skipped. -/
theorem exists_skip (cs : List Char) : ∃ gap, IsBlank gap ∧ cs = gap ++ skip cs :=
  ⟨cs.takeWhile Text.isBlankChar, fun _ => List.mem_takeWhile_imp,
    List.takeWhile_append_dropWhile.symm⟩

/-- White space that is skipped belongs to the text. -/
theorem Spelled.of_skip {ts : List Token} {cs : List Char} (h : Spelled ts (skip cs)) :
    Spelled ts cs := by
  obtain ⟨gap, hgap, hcs⟩ := exists_skip cs
  rw [hcs]
  exact h.gap_append hgap

/-- A token in front of a text, where white space may stand before it. -/
theorem Spelled.of_skip_eq {t : Token} {ts : List Token} {cs rest : List Char}
    (hskip : skip cs = t.text ++ rest) (hends : t.Ends rest) (h : Spelled ts rest) :
    Spelled (t :: ts) cs := by
  refine .of_skip ?_
  rw [hskip]
  exact .cons .nil hends h

/-- White space in front is skipped. -/
theorem skip_append {gap : List Char} (hgap : IsBlank gap) (cs : List Char) :
    skip (gap ++ cs) = skip cs :=
  List.dropWhile_append_of_pos hgap

theorem length_skip_le (cs : List Char) : (skip cs).length ≤ cs.length :=
  (List.dropWhile_suffix Text.isBlankChar).length_le

/-- No character of a number is white space. -/
theorem isBlankChar_of_isNumberChar {c : Char} (h : isNumberChar c = true) :
    Text.isBlankChar c = false := by
  -- digits and the point lie between the blank characters
  have hrange : 46 ≤ c.toNat ∧ c.toNat ≤ 57 := by
    simp only [isNumberChar, Char.isDigit, Bool.or_eq_true, Bool.and_eq_true, decide_eq_true_eq,
      beq_iff_eq] at h
    rcases h with ⟨hlow, hhigh⟩ | rfl
    · have hlow' : 48 ≤ c.toNat := hlow
      have hhigh' : c.toNat ≤ 57 := hhigh
      omega
    · decide
  rw [Bool.eq_false_iff]
  intro hblank
  simp only [Text.isBlankChar, Bool.or_eq_true, Bool.and_eq_true, decide_eq_true_eq,
    beq_iff_eq] at hblank
  omega

/-- A numeral has a digit at least. -/
theorem Numeral.digits_ne_nil (n : Numeral) : n.digits ≠ [] := by
  intro hnil
  have hreads := n.reads
  rw [hnil] at hreads
  exact absurd hreads (by simp [Number.readUnsigned?])

/-- A token starts with a character that is no white space. -/
theorem Token.exists_head (t : Token) :
    ∃ c tail, t.text = c :: tail ∧ Text.isBlankChar c = false := by
  cases t with
  | sum op =>
    cases op with
    | plus => exact ⟨'+', [], rfl, by decide⟩
    | minus => exact ⟨'-', [], rfl, by decide⟩
  | product op =>
    cases op with
    | times => exact ⟨'*', [], rfl, by decide⟩
    | divided => exact ⟨'/', [], rfl, by decide⟩
  | opening => exact ⟨'(', [], rfl, by decide⟩
  | closing => exact ⟨')', [], rfl, by decide⟩
  | number n =>
    obtain ⟨c, tail, hdigits⟩ := List.exists_cons_of_ne_nil n.digits_ne_nil
    have hmem : c ∈ n.digits := by simp [hdigits]
    exact ⟨c, tail, hdigits, isBlankChar_of_isNumberChar (n.isNumberChar c hmem)⟩

/-- After white space a text starts with its first token. -/
theorem Spelled.skip_eq {t : Token} {ts : List Token} {cs : List Char} (h : Spelled (t :: ts) cs) :
    ∃ rest, skip cs = t.text ++ rest ∧ t.Ends rest ∧ Spelled ts rest := by
  cases h with
  | cons hgap hends hrest =>
    obtain ⟨c, tail, htext, hblank⟩ := t.exists_head
    refine ⟨_, ?_, hends, hrest⟩
    rw [skip_append hgap, htext, List.cons_append]
    exact List.dropWhile_cons_of_neg (by simp [hblank])

/-- A text of no tokens is white space. -/
theorem Spelled.skip_eq_nil {cs : List Char} (h : Spelled [] cs) : skip cs = [] := by
  cases h with
  | nil hgap => exact List.dropWhile_eq_nil_iff.mpr hgap

/-- The tokens are those of the text after its white space. -/
theorem Spelled.spelled_skip {ts : List Token} {cs : List Char} (h : Spelled ts cs) :
    Spelled ts (skip cs) := by
  cases ts with
  | nil =>
    rw [h.skip_eq_nil]
    exact .nil .nil
  | cons t ts =>
    obtain ⟨rest, hskip, hends, hrest⟩ := h.skip_eq
    rw [hskip]
    exact .cons .nil hends hrest

/-- After a token there is less text. -/
theorem Spelled.length_lt {t : Token} {cs rest : List Char} (hskip : skip cs = t.text ++ rest) :
    rest.length < cs.length := by
  obtain ⟨c, tail, htext, -⟩ := t.exists_head
  have hle := length_skip_le cs
  rw [hskip, htext] at hle
  simp only [List.cons_append, List.length_cons, List.length_append] at hle
  omega

-- ---------------------------------------------------------------------------
-- The tokens of a text
-- ---------------------------------------------------------------------------

/-- Two numerals at the same place are the same, as neither goes on. -/
theorem Numeral.eq_of_append {n n' : Numeral} {rest rest' : List Char}
    (heq : n.digits ++ rest = n'.digits ++ rest') (hends : (Token.number n).Ends rest)
    (hends' : (Token.number n').Ends rest') : n = n' ∧ rest = rest' := by
  have hdigits : n.digits = n'.digits := by
    rw [← Json.takeWhile_append_of_head n.isNumberChar hends,
      ← Json.takeWhile_append_of_head n'.isNumberChar hends', heq]
  have hvalue : n.value = n'.value :=
    Option.some.inj (n.reads.symm.trans ((congrArg _ hdigits).trans n'.reads))
  rw [hdigits] at heq
  exact ⟨Numeral.ext hdigits hvalue, List.append_cancel_left heq⟩

/-- The token that a character is by itself. -/
def mark? (c : Char) : Option Token :=
  if c = '+' then some (.sum .plus)
  else if c = '-' then some (.sum .minus)
  else if c = '*' then some (.product .times)
  else if c = '/' then some (.product .divided)
  else if c = '(' then some .opening
  else if c = ')' then some .closing
  else none

/-- No character of a number is a mark. -/
theorem mark?_of_isNumberChar {c : Char} (h : isNumberChar c = true) : mark? c = none := by
  unfold mark?
  split_ifs
  · subst c
    exact absurd h (by decide)
  · subst c
    exact absurd h (by decide)
  · subst c
    exact absurd h (by decide)
  · subst c
    exact absurd h (by decide)
  · subst c
    exact absurd h (by decide)
  · subst c
    exact absurd h (by decide)
  · rfl

/-- A token is a mark of one character, or a number. -/
theorem Token.mark_or_number (t : Token) :
    (∃ c, t.text = [c] ∧ mark? c = some t) ∨ ∃ n, t = .number n := by
  cases t with
  | sum op =>
    cases op with
    | plus => exact .inl ⟨'+', rfl, rfl⟩
    | minus => exact .inl ⟨'-', rfl, rfl⟩
  | product op =>
    cases op with
    | times => exact .inl ⟨'*', rfl, rfl⟩
    | divided => exact .inl ⟨'/', rfl, rfl⟩
  | opening => exact .inl ⟨'(', rfl, rfl⟩
  | closing => exact .inl ⟨')', rfl, rfl⟩
  | number n => exact .inr ⟨n, rfl⟩

/-- A number and another token do not start with the same character. -/
theorem Numeral.not_mark (n : Numeral) {c : Char} {t : Token} (hmark : mark? c = some t)
    (rest rest' : List Char) : n.digits ++ rest ≠ c :: rest' := by
  intro heq
  obtain ⟨d, tail, hdigits⟩ := List.exists_cons_of_ne_nil n.digits_ne_nil
  rw [hdigits, List.cons_append] at heq
  obtain ⟨rfl, -⟩ := List.cons.inj heq
  have hnumber := mark?_of_isNumberChar (n.isNumberChar d (by simp [hdigits]))
  exact absurd (hnumber.symm.trans hmark) (by simp)

/-- A token and what comes after it are determined by the text. -/
theorem Token.eq_of_append {t t' : Token} {rest rest' : List Char}
    (heq : t.text ++ rest = t'.text ++ rest') (hends : t.Ends rest) (hends' : t'.Ends rest') :
    t = t' ∧ rest = rest' := by
  rcases t.mark_or_number with ⟨c, htext, hmark⟩ | ⟨n, rfl⟩
  · -- two marks are told apart by their characters, two numbers by their ends
    rcases t'.mark_or_number with ⟨c', htext', hmark'⟩ | ⟨n', rfl⟩
    · rw [htext, htext'] at heq
      obtain ⟨rfl, rfl⟩ := List.cons.inj heq
      exact ⟨Option.some.inj (hmark.symm.trans hmark'), rfl⟩
    · rw [htext] at heq
      exact absurd heq.symm (n'.not_mark hmark rest' rest)
  · rcases t'.mark_or_number with ⟨c', htext', hmark'⟩ | ⟨n', rfl⟩
    · rw [htext'] at heq
      exact absurd heq (n.not_mark hmark' rest rest')
    · obtain ⟨rfl, rfl⟩ := Numeral.eq_of_append heq hends hends'
      exact ⟨rfl, rfl⟩

/-- **A text is written from one list of tokens only.** -/
theorem Spelled.tokens_unique {ts ts' : List Token} {cs : List Char} (h : Spelled ts cs)
    (h' : Spelled ts' cs) : ts = ts' := by
  -- Induction on the tokens: the first is decided by the text after the white space, the others
  -- by what is left.
  induction ts generalizing ts' cs with
  | nil =>
    cases ts' with
    | nil => rfl
    | cons t' ts' =>
      obtain ⟨rest, hskip, -⟩ := h'.skip_eq
      obtain ⟨c, tail, htext, -⟩ := t'.exists_head
      rw [h.skip_eq_nil, htext] at hskip
      exact absurd hskip (by simp)
  | cons t ts ih =>
    obtain ⟨rest, hskip, hends, hrest⟩ := h.skip_eq
    cases ts' with
    | nil =>
      obtain ⟨c, tail, htext, -⟩ := t.exists_head
      rw [h'.skip_eq_nil, htext] at hskip
      exact absurd hskip (by simp)
    | cons t' ts' =>
      obtain ⟨rest', hskip', hends', hrest'⟩ := h'.skip_eq
      obtain ⟨rfl, rfl⟩ := Token.eq_of_append (hskip.symm.trans hskip') hends hends'
      rw [ih hrest hrest']

-- ---------------------------------------------------------------------------
-- Syntax trees
-- ---------------------------------------------------------------------------

mutual

/-- `expr = term (('+' | '-') term)*` -/
inductive Expr where
  | sum (first : Term) (rest : Terms)

/-- Terms, each with the operator before it. -/
inductive Terms where
  | nil
  | cons (op : SumOp) (t : Term) (rest : Terms)

/-- `term = factor (('*' | '/') factor)*` -/
inductive Term where
  | product (first : Factor) (rest : Factors)

/-- Factors, each with the operator before it. -/
inductive Factors where
  | nil
  | cons (op : ProductOp) (f : Factor) (rest : Factors)

/-- `factor = '-' factor | '(' expr ')' | number` -/
inductive Factor where
  | negated (f : Factor)
  | parens (e : Expr)
  | number (n : Numeral)

end

mutual

/-- What a tree is written from. -/
def Expr.tokens : Expr → List Token
  | .sum t ts => t.tokens ++ ts.tokens

def Terms.tokens : Terms → List Token
  | .nil => []
  | .cons op t ts => .sum op :: (t.tokens ++ ts.tokens)

def Term.tokens : Term → List Token
  | .product f fs => f.tokens ++ fs.tokens

def Factors.tokens : Factors → List Token
  | .nil => []
  | .cons op f fs => .product op :: (f.tokens ++ fs.tokens)

def Factor.tokens : Factor → List Token
  | .negated f => .sum .minus :: f.tokens
  | .parens e => .opening :: (e.tokens ++ [.closing])
  | .number n => [.number n]

end

def SumOp.combine : SumOp → Float → Float → Float
  | .plus, x, y => x + y
  | .minus, x, y => x - y

/-- There is no quotient with a divisor that is equal to zero. -/
def ProductOp.combine? : ProductOp → Float → Float → Option Float
  | .times, x, y => some (x * y)
  | .divided, x, y => if y == 0.0 then none else some (x / y)

mutual

/-- What a tree comes to, from left to right, if no divisor is equal to zero. -/
def Expr.value? : Expr → Option Float
  | .sum t ts => t.value?.bind ts.value?

/-- What the terms make of the sum so far. -/
def Terms.value? : Terms → Float → Option Float
  | .nil, acc => some acc
  | .cons op t ts, acc => t.value?.bind fun x => ts.value? (op.combine acc x)

def Term.value? : Term → Option Float
  | .product f fs => f.value?.bind fs.value?

/-- What the factors make of the product so far. -/
def Factors.value? : Factors → Float → Option Float
  | .nil, acc => some acc
  | .cons op f fs, acc => f.value?.bind fun x => (op.combine? acc x).bind fs.value?

def Factor.value? : Factor → Option Float
  | .negated f => f.value?.map fun x => -x
  | .parens e => e.value?
  | .number n => some n.value

end

/-- The text is written from the tokens of this tree. -/
def Expr.Derives (e : Expr) (cs : List Char) : Prop := Spelled e.tokens cs

-- ---------------------------------------------------------------------------
-- The tree of a list of tokens
-- ---------------------------------------------------------------------------

/-- No product goes on with these tokens. -/
def EndsProduct (ts : List Token) : Prop := ∀ op, ts.head? ≠ some (.product op)

/-- No sum goes on with these tokens, nor the product that is its last term. -/
def EndsSum (ts : List Token) : Prop := EndsProduct ts ∧ ∀ op, ts.head? ≠ some (.sum op)

theorem EndsSum.nil : EndsSum [] := by simp [EndsSum, EndsProduct]

/-- A parenthesis ends the sum in it. -/
theorem EndsSum.closing (ts : List Token) : EndsSum (.closing :: ts) := by
  simp [EndsSum, EndsProduct]

/-- After a term come further terms or the end of the sum. -/
theorem EndsSum.terms {more : List Token} (h : EndsSum more) (ts : Terms) :
    EndsProduct (ts.tokens ++ more) := by
  cases ts with
  | nil => exact h.1
  | cons op t ts => simp [Terms.tokens, EndsProduct]

mutual

/-- **Expressions that are written from the same tokens are the same.** -/
theorem Expr.tokens_append_inj : ∀ {e e' : Expr} {more more' : List Token},
    e.tokens ++ more = e'.tokens ++ more' → EndsSum more → EndsSum more' → e = e' ∧ more = more'
  | .sum t ts, .sum t' ts', more, more', heq, hmore, hmore' => by
    simp only [Expr.tokens, List.append_assoc] at heq
    obtain ⟨rfl, hrest⟩ := Term.tokens_append_inj heq (hmore.terms ts) (hmore'.terms ts')
    obtain ⟨rfl, rfl⟩ := Terms.tokens_append_inj hrest hmore hmore'
    exact ⟨rfl, rfl⟩

/-- Terms that are written from the same tokens are the same. -/
theorem Terms.tokens_append_inj : ∀ {ts ts' : Terms} {more more' : List Token},
    ts.tokens ++ more = ts'.tokens ++ more' → EndsSum more → EndsSum more' → ts = ts' ∧ more = more'
  | .nil, .nil, more, more', heq, _, _ => ⟨rfl, heq⟩
  | .nil, .cons op t ts, more, more', heq, hmore, _ =>
    absurd (congrArg List.head? heq) (hmore.2 op)
  | .cons op t ts, .nil, more, more', heq, _, hmore' =>
    absurd (congrArg List.head? heq.symm) (hmore'.2 op)
  | .cons op t ts, .cons op' t' ts', more, more', heq, hmore, hmore' => by
    simp only [Terms.tokens, List.cons_append, List.append_assoc] at heq
    obtain ⟨hop, hrest⟩ := List.cons.inj heq
    obtain rfl := Token.sum.inj hop
    obtain ⟨rfl, htail⟩ := Term.tokens_append_inj hrest (hmore.terms ts) (hmore'.terms ts')
    obtain ⟨rfl, rfl⟩ := Terms.tokens_append_inj htail hmore hmore'
    exact ⟨rfl, rfl⟩

/-- Products that are written from the same tokens are the same. -/
theorem Term.tokens_append_inj : ∀ {t t' : Term} {more more' : List Token},
    t.tokens ++ more = t'.tokens ++ more' → EndsProduct more → EndsProduct more' →
      t = t' ∧ more = more'
  | .product f fs, .product f' fs', more, more', heq, hmore, hmore' => by
    simp only [Term.tokens, List.append_assoc] at heq
    obtain ⟨rfl, hrest⟩ := Factor.tokens_append_inj heq
    obtain ⟨rfl, rfl⟩ := Factors.tokens_append_inj hrest hmore hmore'
    exact ⟨rfl, rfl⟩

/-- Factors that are written from the same tokens are the same. -/
theorem Factors.tokens_append_inj : ∀ {fs fs' : Factors} {more more' : List Token},
    fs.tokens ++ more = fs'.tokens ++ more' → EndsProduct more → EndsProduct more' →
      fs = fs' ∧ more = more'
  | .nil, .nil, more, more', heq, _, _ => ⟨rfl, heq⟩
  | .nil, .cons op f fs, more, more', heq, hmore, _ =>
    absurd (congrArg List.head? heq) (hmore op)
  | .cons op f fs, .nil, more, more', heq, _, hmore' =>
    absurd (congrArg List.head? heq.symm) (hmore' op)
  | .cons op f fs, .cons op' f' fs', more, more', heq, hmore, hmore' => by
    simp only [Factors.tokens, List.cons_append, List.append_assoc] at heq
    obtain ⟨hop, hrest⟩ := List.cons.inj heq
    obtain rfl := Token.product.inj hop
    obtain ⟨rfl, htail⟩ := Factor.tokens_append_inj hrest
    obtain ⟨rfl, rfl⟩ := Factors.tokens_append_inj htail hmore hmore'
    exact ⟨rfl, rfl⟩

/-- A factor ends by itself, whatever comes after it. -/
theorem Factor.tokens_append_inj : ∀ {f f' : Factor} {more more' : List Token},
    f.tokens ++ more = f'.tokens ++ more' → f = f' ∧ more = more'
  | .negated f, .negated f', more, more', heq => by
    obtain ⟨rfl, rfl⟩ := Factor.tokens_append_inj (List.cons.inj heq).2
    exact ⟨rfl, rfl⟩
  | .parens e, .parens e', more, more', heq => by
    simp only [Factor.tokens, List.cons_append, List.append_assoc, List.nil_append] at heq
    obtain ⟨rfl, hrest⟩ := Expr.tokens_append_inj (List.cons.inj heq).2 (.closing more)
      (.closing more')
    exact ⟨rfl, (List.cons.inj hrest).2⟩
  | .number n, .number n', more, more', heq => by
    obtain ⟨hnumber, rfl⟩ := List.cons.inj heq
    obtain rfl := Token.number.inj hnumber
    exact ⟨rfl, rfl⟩
  | .negated f, .parens e, _, _, heq => absurd (List.cons.inj heq).1 (by simp)
  | .negated f, .number n, _, _, heq => absurd (List.cons.inj heq).1 (by simp)
  | .parens e, .negated f, _, _, heq => absurd (List.cons.inj heq).1 (by simp)
  | .parens e, .number n, _, _, heq => absurd (List.cons.inj heq).1 (by simp)
  | .number n, .negated f, _, _, heq => absurd (List.cons.inj heq).1 (by simp)
  | .number n, .parens e, _, _, heq => absurd (List.cons.inj heq).1 (by simp)

end

/-- **A text has one tree at most.** -/
theorem Expr.Derives.unique {e e' : Expr} {cs : List Char} (h : e.Derives cs)
    (h' : e'.Derives cs) : e = e' := by
  have htokens : e.tokens ++ [] = e'.tokens ++ [] :=
    congrArg (· ++ []) (Spelled.tokens_unique h h')
  exact (Expr.tokens_append_inj htokens .nil .nil).1

end PlanRunner.Expression
