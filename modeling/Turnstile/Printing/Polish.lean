import Turnstile.Formula.Polish
import Turnstile.Printing.Glyphs

/-! Formulas as text operator first: the glyphs of their symbols in Polish order, with a gap
between them. No parentheses are needed. -/
namespace Turnstile

def Glyphs.ofSymbol (g : Glyphs) : Symbol → String
  | .atom name => String.singleton name
  | .unary op => g.ofUnary op
  | .binary op => g.ofConnective op

def Formula.polishText (g : Glyphs) (gap : String) (f : Formula) : String :=
  gap.intercalate (f.toPolish.map g.ofSymbol)

end Turnstile
