/-!
Tests of where one text stands in another: at the start, at the end, anywhere. They compare lists
of characters, so `List.isPrefixOf_iff_prefix` and its relatives say what they mean.
-/

set_option autoImplicit false

namespace JobFlow.Text

def startsWith (s start : String) : Bool :=
  start.toList.isPrefixOf s.toList

def endsWith (s ending : String) : Bool :=
  ending.toList.isSuffixOf s.toList

/-- Whether `part` stands somewhere in the characters as one uninterrupted run. -/
def hasRun (part : List Char) : List Char → Bool
  | [] => part.isEmpty
  | c :: cs => part.isPrefixOf (c :: cs) || hasRun part cs

def contains (s part : String) : Bool :=
  hasRun part.toList s.toList

def dropChars (s : String) (n : Nat) : String :=
  String.ofList (s.toList.drop n)

theorem startsWith_iff {s start : String} :
    startsWith s start = true ↔ start.toList <+: s.toList :=
  List.isPrefixOf_iff_prefix

theorem endsWith_iff {s ending : String} :
    endsWith s ending = true ↔ ending.toList <:+ s.toList :=
  List.isSuffixOf_iff_suffix

/-- A run is found exactly where the characters split around it. -/
theorem hasRun_iff {part cs : List Char} : hasRun part cs = true ↔ part <:+: cs := by
  induction cs with
  | nil => simp [hasRun]
  | cons c cs ih => simp [hasRun, ih, List.infix_cons_iff, List.isPrefixOf_iff_prefix]

end JobFlow.Text
