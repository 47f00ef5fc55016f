import JobFlow.Text.Blank

/-!
The words and signs of program text. Blanks, comments and the backslashes that join lines are passed
over, and a quoted text counts as one sign, so that nothing in it is taken for a word or a comma.
-/

set_option autoImplicit false

namespace JobFlow.WorkflowFile

inductive Token
  | word (name : String)
  | comma
  | colon
  | equals
  | star
  | opening
  | closing
  /-- A quoted text, or any other sign. -/
  | other
  deriving DecidableEq, Repr

namespace Token

def isWordCharacter (c : Char) : Bool :=
  c.isAlphanum || c == '_' || 0x80 ≤ c.toNat

/-- The token of a single character that belongs to no word. -/
def ofSign : Char → Token
  | ',' => comma
  | ':' => colon
  | '=' => equals
  | '*' => star
  | '(' | '[' | '\x7b' => opening
  | ')' | ']' | '\x7d' => closing
  | _ => other

/-- The characters that make one sign with an equals sign behind them. -/
def joinsEquals (c : Char) : Bool :=
  c == '=' || c == '!' || c == '<' || c == '>' || c == ':'

/-- What follows a quoted text of which the opening quotes have been read. A backslash takes the
next character with it. -/
def afterQuoted (closing : List Char) : List Char → List Char
  | [] => []
  | '\\' :: _ :: rest => afterQuoted closing rest
  | c :: rest =>
    if closing.isPrefixOf (c :: rest) then rest.drop (closing.length - 1)
    else afterQuoted closing rest

theorem length_afterQuoted_le (closing cs : List Char) :
    (afterQuoted closing cs).length ≤ cs.length := by
  fun_induction afterQuoted closing cs with
  | case1 => exact Nat.le_refl _
  | case2 c rest ih =>
    simp only [List.length_cons]
    omega
  | case3 c rest =>
    simp only [List.length_drop, List.length_cons]
    omega
  | case4 c rest _ _ ih =>
    simp only [List.length_cons]
    omega

/-- What follows a quoted text of which the first quote has been read. Three quotes open a text that
three quotes close. -/
def afterQuote (quote : Char) (cs : List Char) : List Char :=
  if [quote, quote].isPrefixOf cs then afterQuoted [quote, quote, quote] (cs.drop 2)
  else afterQuoted [quote] cs

/-- The token that a character starts, if it starts one, and what follows. -/
def next (c : Char) (cs : List Char) : Option Token × List Char :=
  if isWordCharacter c then
    (some (word (String.ofList (c :: cs.takeWhile isWordCharacter))), cs.dropWhile isWordCharacter)
  else if c = '#' then (none, cs.dropWhile (· ≠ '\n'))
  else if c = '\'' ∨ c = '"' then (some other, afterQuote c cs)
  else if Text.isBlank c ∨ c = '\\' then (none, cs)
  else if joinsEquals c ∧ cs.head? = some '=' then (some other, cs.drop 1)
  else (some (ofSign c), cs)

theorem length_next_le (c : Char) (cs : List Char) : (next c cs).2.length ≤ cs.length := by
  unfold next
  repeat' split
  · exact (List.dropWhile_suffix _).length_le
  · exact (List.dropWhile_suffix _).length_le
  · unfold afterQuote
    split
    · exact Nat.le_trans (length_afterQuoted_le [c, c, c] (cs.drop 2))
        (List.length_drop ▸ Nat.sub_le cs.length 2)
    · exact length_afterQuoted_le [c] cs
  · exact Nat.le_refl _
  · simp only [List.length_drop]
    omega
  · exact Nat.le_refl _

def ofCharacters : List Char → List Token
  | [] => []
  | c :: cs =>
    have := length_next_le c cs
    (next c cs).1.toList ++ ofCharacters (next c cs).2
termination_by cs => cs.length

/-- The tokens outside brackets and outside the parameters of nameless functions. `pending` tells for
every open bracket, innermost first, and for the whole, how many such functions still expect the
colon that ends their parameters. -/
def outermost (pending : List Nat) : List Token → List Token
  | [] => []
  | opening :: rest => outermost (0 :: pending) rest
  | closing :: rest => outermost pending.tail rest
  | word "lambda" :: rest => outermost (pending.modifyHead (· + 1)) rest
  | token :: rest =>
    match token, pending with
    | colon, (count + 1) :: others => outermost (count :: others) rest
    | token, [0] => token :: outermost pending rest
    | _, _ => outermost pending rest

end Token

end JobFlow.WorkflowFile
