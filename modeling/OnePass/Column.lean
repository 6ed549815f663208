/-!
# Columns

Text brought to a width, counted in characters. Text that is wider stays as it is. -/

namespace OnePass

/-- Fills text with blanks on the left up to `width` characters. -/
def alignRight (width : Nat) (text : String) : String :=
  String.ofList (text.toList.leftpad width ' ')

/-- Fills text with blanks on the right up to `width` characters. -/
def alignLeft (width : Nat) (text : String) : String :=
  String.ofList (text.toList.rightpad width ' ')

end OnePass
