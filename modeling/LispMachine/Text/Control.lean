/-
Characters that show nothing and part nothing: the controls, the format marks, the private-use characters and the code
points that stand for no character. Together they are the general category `C` of Unicode, that is, what is left when
the printable characters and the separators (category `Z`) are taken away.
-/
import LispMachine.Text.Printable

namespace LispMachine.Text

/-- the characters that part words, lines or paragraphs -/
def isSeparator (c : Char) : Bool :=
  let n := c.toNat
  n = 0x20 || n = 0xA0 || n = 0x1680 || (0x2000 ≤ n && n ≤ 0x200A) || n = 0x2028 || n = 0x2029 || n = 0x202F
    || n = 0x205F || n = 0x3000

def isControl (c : Char) : Bool := !isPrintable c && !isSeparator c

end LispMachine.Text
