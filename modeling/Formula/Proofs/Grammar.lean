import Formula.Parse

/-!
# The grammar of formulas

The grammar is a relation between runs of tokens and what they are read as. It knows neither cursors
nor limits; the nesting of a derivation is a number beside it.

* `Phrase`: what a run of tokens can be read as.
* `Phrase.Spelled`: the rules. Each says which tokens spell a phrase, and how deep they nest.
* `Sentence`, `Viable`: the runs of tokens that are a formula of a level, and those that some
  further tokens make a formula.
-/

namespace Formula

/-- The token that an operator is written as. -/
def Operator.token : Operator → Token
  | add => .plus
  | sub => .minus
  | mul => .star
  | div => .slash

theorem Operator.ofToken?_eq_some {o : Operator} {t : Token} :
    ofToken? t = some o ↔ t = o.token := by
  cases t <;> cases o <;> simp [ofToken?, token]

/-- What a run of tokens is read as. -/
inductive Phrase
  /-- A tree of a level. -/
  | tree (level : Level) (e : Expr)
  /-- What stands between the parentheses of a call. -/
  | arguments (es : List Expr)
  /-- One or more arguments with commas between them. -/
  | someArguments (es : List Expr)

/-- The rules of the grammar. `p.Spelled ts n` says that the tokens `ts` are read as `p`, and that
groups, calls and prefixes nest `n` deep in them. A product is one operand, or a product that
another operand follows, and a sum is made of products in the same way, so trees of one level lean
to the left. -/
inductive Phrase.Spelled : Phrase → List Token → Nat → Prop
  | number (value : Float) : Spelled (.tree .operand (.number value)) [.number value] 0
  | var (name : String) : Spelled (.tree .operand (.var name)) [.name name] 0
  | plus {e : Expr} {ts : List Token} {n : Nat} :
    Spelled (.tree .operand e) ts n → Spelled (.tree .operand e) (.plus :: ts) (n + 1)
  | minus {e : Expr} {ts : List Token} {n : Nat} :
    Spelled (.tree .operand e) ts n → Spelled (.tree .operand (.neg e)) (.minus :: ts) (n + 1)
  | group {e : Expr} {ts : List Token} {n : Nat} :
    Spelled (.tree .sum e) ts n →
      Spelled (.tree .operand e) (.openParen :: (ts ++ [.closeParen])) (n + 1)
  | call (function : String) {es : List Expr} {ts : List Token} {n : Nat} :
    Spelled (.arguments es) ts n →
      Spelled (.tree .operand (.call function es))
        (.name function :: .openParen :: (ts ++ [.closeParen])) (n + 1)
  | product {e : Expr} {ts : List Token} {n : Nat} :
    Spelled (.tree .operand e) ts n → Spelled (.tree .product e) ts n
  | sum {e : Expr} {ts : List Token} {n : Nat} :
    Spelled (.tree .product e) ts n → Spelled (.tree .sum e) ts n
  | binary (o : Operator) {e f : Expr} {ts us : List Token} {m n : Nat} :
    Spelled (.tree o.level e) ts m → Spelled (.tree o.level.below f) us n →
      Spelled (.tree o.level (.binary o e f)) (ts ++ o.token :: us) (max m n)
  | none : Spelled (.arguments []) [] 0
  | some {es : List Expr} {ts : List Token} {n : Nat} :
    Spelled (.someArguments es) ts n → Spelled (.arguments es) ts n
  | last {e : Expr} {ts : List Token} {n : Nat} :
    Spelled (.tree .sum e) ts n → Spelled (.someArguments [e]) ts n
  | more {e : Expr} {es : List Expr} {ts us : List Token} {m n : Nat} :
    Spelled (.tree .sum e) ts m → Spelled (.someArguments es) us n →
      Spelled (.someArguments (e :: es)) (ts ++ .comma :: us) (max m n)

theorem spelled_of_below {l : Level} {e : Expr} {ts : List Token} {n : Nat}
    (h : (Phrase.tree l.below e).Spelled ts n) : (Phrase.tree l e).Spelled ts n := by
  cases l with
  | operand => exact h
  | product => exact .product h
  | sum => exact .sum h

theorem spelled_of_operand {e : Expr} {ts : List Token} {n : Nat}
    (h : (Phrase.tree .operand e).Spelled ts n) (l : Level) : (Phrase.tree l e).Spelled ts n := by
  cases l with
  | operand => exact h
  | product => exact .product h
  | sum => exact .sum (.product h)

/-- The tokens are a formula of a level. -/
def Sentence (l : Level) (ts : List Token) : Prop := ∃ e n, (Phrase.tree l e).Spelled ts n

/-- Some further tokens make a formula. -/
def Viable (ts : List Token) : Prop := ∃ us, Sentence .sum (ts ++ us)

theorem sentence_number (l : Level) (value : Float) : Sentence l [.number value] :=
  ⟨_, _, spelled_of_operand (.number value) l⟩

end Formula
