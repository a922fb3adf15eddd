import Abacus.Decimal.Read
import Abacus.Expr
import Abacus.Token

/-!
# The grammar of expressions

    expression = term | term (+|-) expression
    term       = factor | factor (*|/) term
    factor     = ( expression ) | number | identifier

The rules say which lists of tokens are expressions and which tree each of them spells. They know nothing of
lookahead, of faults or of a nesting limit.
-/

namespace Abacus.Grammar

inductive SumSign : Token → Operator → Prop
  | plus {line : Int} : SumSign ⟨.operator, "+", line⟩ .add
  | minus {line : Int} : SumSign ⟨.operator, "-", line⟩ .sub

inductive ProductSign : Token → Operator → Prop
  | times {line : Int} : ProductSign ⟨.operator, "*", line⟩ .mul
  | over {line : Int} : ProductSign ⟨.operator, "/", line⟩ .div

inductive Phrase where
  | expression
  | term
  | factor
deriving DecidableEq, Repr

/-- `Derives c ts e`: the tokens `ts` are a phrase of kind `c` and spell the tree `e`. A number counts only
where its text reads as a double. -/
inductive Derives : Phrase → List Token → Expr → Prop
  | term {ts e} (h : Derives .term ts e) : Derives .expression ts e
  | sum {ts t us op l r} (left : Derives .term ts l) (sign : SumSign t op) (right : Derives .expression us r) :
      Derives .expression (ts ++ t :: us) (.binary op l r)
  | factor {ts e} (h : Derives .factor ts e) : Derives .term ts e
  | product {ts t us op l r} (left : Derives .factor ts l) (sign : ProductSign t op) (right : Derives .term us r) :
      Derives .term (ts ++ t :: us) (.binary op l r)
  | paren {ts e} {line line' : Int} (h : Derives .expression ts e) :
      Derives .factor (⟨.symbol, "(", line⟩ :: (ts ++ [⟨.symbol, ")", line'⟩])) e
  | number {text x} {line : Int} (h : Numeral.float text = .ok x) :
      Derives .factor [⟨.number, text, line⟩] (.number x)
  | identifier {text} {line : Int} : Derives .factor [⟨.identifier, text, line⟩] (.variable text)

/-- Some phrase of kind `c` starts with `us`. -/
def Viable (c : Phrase) (us : List Token) : Prop := ∃ ws e, Derives c (us ++ ws) e

/-! ## The two levels of operators -/

/-- Sums join terms into expressions, and products join factors into terms. -/
inductive Precedence where
  | sums
  | products
deriving DecidableEq, Repr

namespace Precedence

def whole : Precedence → Phrase
  | .sums => .expression
  | .products => .term

def part : Precedence → Phrase
  | .sums => .term
  | .products => .factor

def Sign : Precedence → Token → Operator → Prop
  | .sums => SumSign
  | .products => ProductSign

end Precedence

theorem Derives.part : (l : Precedence) → {ts : List Token} → {e : Expr} → Derives l.part ts e → Derives l.whole ts e
  | .sums, _, _, h => .term h
  | .products, _, _, h => .factor h

theorem Derives.join : (l : Precedence) → {ts us : List Token} → {t : Token} → {op : Operator} → {x y : Expr} →
    Derives l.part ts x → l.Sign t op → Derives l.whole us y → Derives l.whole (ts ++ t :: us) (.binary op x y)
  | .sums, _, _, _, _, _, _, hx, ht, hy => .sum hx ht hy
  | .products, _, _, _, _, _, _, hx, ht, hy => .product hx ht hy

/-! ## Viable beginnings -/

theorem viable_nil (c : Phrase) : Viable c [] := by
  have h : Derives .factor [⟨.identifier, "x", 1⟩] (.variable "x") := .identifier
  cases c with
  | expression => exact ⟨_, _, .term (.factor h)⟩
  | term => exact ⟨_, _, .factor h⟩
  | factor => exact ⟨_, _, h⟩

theorem Derives.viable {c ts e} (h : Derives c ts e) : Viable c ts := ⟨[], e, by simpa using h⟩

theorem Viable.part (l : Precedence) {us} : Viable l.part us → Viable l.whole us
  | ⟨ws, e, h⟩ => ⟨ws, e, .part l h⟩

theorem Viable.join (l : Precedence) {ts t us op x} (hx : Derives l.part ts x) (ht : l.Sign t op) :
    Viable l.whole us → Viable l.whole (ts ++ t :: us)
  | ⟨ws, _, h⟩ => ⟨ws, _, by simpa using Derives.join l hx ht h⟩

theorem Viable.paren {us} (line : Int) : Viable .expression us → Viable .factor (⟨.symbol, "(", line⟩ :: us)
  | ⟨ws, e, h⟩ => ⟨ws ++ [⟨.symbol, ")", 1⟩], e, by simpa using @Derives.paren _ _ line 1 h⟩

end Abacus.Grammar
