import Abacus.Text.Width.Ranges

/-!
# Width of characters

How many columns of a terminal a character takes. East Asian wide characters and the pictures that
are shown like them take two, marks that are drawn over the character before them and invisible
characters take none, and all others take one. Marks that are also wide take none. One sign,
which is drawn as three, takes three.

Model of the widths that the layout of a report counts with. White space is not among them: the
report draws it by itself.
-/

namespace Abacus.Text

/-- The Khmer sign beyyal, which is drawn as three signs in a row. -/
def beyyal : Char := '\u17d8'

/-- The number of columns that a character takes. -/
def width (c : Char) : Nat :=
  if inRanges zeroWidth c.toNat then 0
  else if inRanges doubleWidth c.toNat then 2
  else if c = beyyal then 3
  else 1

end Abacus.Text
