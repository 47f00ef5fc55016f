import JobFlow.Text.Blank

/-!
Conditions that are too long for one line. They are cut after logical operators, never inside a
quoted text, and folding the lines puts single spaces where the cuts were.
-/

set_option autoImplicit false

namespace JobFlow.Expression

/-- The two-character operators after which a line may end. -/
def isOperator (c d : Char) : Bool :=
  (c == '&' && d == '&') || (c == '|' && d == '|')

/-- The characters that open a quoted text and, met again, close it. -/
def isQuote (c : Char) : Bool :=
  c == '\'' || c == '"'

/-- Whether a line may end here: its trimmed length has reached the threshold. -/
def isFull (threshold : Int) (line : List Char) : Bool :=
  threshold ≤ ((Text.trim line).length : Int)

/-- Cuts the characters behind `line`, the start of the current piece, into pieces. `quote` is the
quote that is open at this place. A piece ends behind the first operator outside quotes at which
it is full; what follows the last cut is the last piece. -/
def cut (threshold : Int) (quote : Option Char) (line : List Char) :
    List Char → List (List Char)
  | [] => [line]
  | c :: rest =>
    match quote with
    | some q => cut threshold (if c = q then none else some q) (line ++ [c]) rest
    | none =>
      if isQuote c then cut threshold (some c) (line ++ [c]) rest
      else
        match rest with
        | d :: rest' =>
          if isOperator c d then
            if isFull threshold (line ++ [c, d]) then
              (line ++ [c, d]) :: cut threshold none [] rest'
            else cut threshold none (line ++ [c, d]) rest'
          else cut threshold none (line ++ [c]) (d :: rest')
        | [] => [line ++ [c]]

/-- The lines of a long condition: its pieces, trimmed, without blank ones. -/
def breakLines (threshold : Int) (expression : String) : List String :=
  let trimmed := (cut threshold none [] expression.toList).map Text.trim
  (trimmed.filter (!·.isEmpty)).map String.ofList

/-- The pieces hold every character in its order. -/
theorem flatten_cut (threshold : Int) (quote : Option Char) (line cs : List Char) :
    (cut threshold quote line cs).flatten = line ++ cs := by
  fun_induction cut threshold quote line cs <;> simp_all

end JobFlow.Expression
