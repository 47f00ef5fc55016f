/-!
Terminal control sequences: an escape character and a bracket, parameters, and one letter. They are
left out of a result that does not go to a terminal.
-/

set_option autoImplicit false

namespace JobFlow.Text

def escapeCharacter : Char :=
  '\x1b'

/-- The characters between the bracket and the letter. -/
def isControlParameter (c : Char) : Bool :=
  c.isDigit || c == ';' || c == '?'

/-- An escape character and a bracket, parameters, and a letter. -/
def IsControl (cs : List Char) : Prop :=
  ∃ parameters letter, cs = escapeCharacter :: '[' :: (parameters ++ [letter]) ∧
    (∀ c ∈ parameters, isControlParameter c = true) ∧ letter.isAlpha = true

/-- What follows the control sequence that the characters start with. -/
def afterControl? : List Char → Option (List Char)
  | first :: '[' :: rest =>
    if first = escapeCharacter then
      match rest.dropWhile isControlParameter with
      | letter :: after => if letter.isAlpha then some after else none
      | [] => none
    else none
  | _ => none

/-- A control sequence has characters. -/
theorem length_lt_of_afterControl? {cs after : List Char} (h : afterControl? cs = some after) :
    after.length < cs.length := by
  unfold afterControl? at h
  split at h
  · next first rest =>
    split at h
    · have shorter := (List.dropWhile_suffix isControlParameter (l := rest)).length_le
      split at h
      · next letter others same =>
        rw [same] at shorter
        split at h
        · cases h
          simp only [List.length_cons] at shorter ⊢
          omega
        · cases h
      · cases h
    · cases h
  · cases h

/-- The characters without control sequences. What stands around a sequence is not looked at again,
so two pieces of a sequence that come together stay. -/
def dropControls (cs : List Char) : List Char :=
  match found : afterControl? cs with
  | some after =>
    have := length_lt_of_afterControl? found
    dropControls after
  | none =>
    match cs with
    | [] => []
    | c :: rest => c :: dropControls rest
termination_by cs.length

def withoutControls (s : String) : String :=
  String.ofList (dropControls s.toList)

end JobFlow.Text
