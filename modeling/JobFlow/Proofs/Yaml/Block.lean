import Mathlib.Algebra.Order.BigOperators.Group.List
import Mathlib.Algebra.Order.Ring.Nat
import Mathlib.Data.List.Induction
import JobFlow.Proofs.Text.Trim
import JobFlow.Yaml.Field

/-!
Reading literal blocks. A literal block does not say how far its lines are indented: a reader takes this
from the first line that is not blank. So a text of several lines is read back from its block exactly when
this line does not begin with a space of its own, which the reader would take for indentation.
-/

set_option autoImplicit false

namespace JobFlow.Yaml

def indentation (line : List Char) : Nat :=
  (line.takeWhile (· == ' ')).length

/-- A line of spaces only. A tab is text. -/
def isEmptyLine (line : List Char) : Bool :=
  line.all (· == ' ')

/-- The first line that is not blank, from which a reader takes the indentation of all lines. -/
def leader? (lines : List (List Char)) : Option (List Char) :=
  lines.find? (!isEmptyLine ·)

/-- A text with exactly one line feed at its end. -/
def clip (cs : List Char) : List Char :=
  Text.trimEndWhile (· == '\n') cs ++ ['\n']

/-- The lines with line feeds behind them, without their first `n` characters. -/
def unindent (n : Nat) (lines : List (List Char)) : List Char :=
  lines.flatMap fun line => line.drop n ++ ['\n']

/-- The text that the lines of a literal block are read as. -/
def readLiteral? (lines : List (List Char)) : Option (List Char) :=
  (leader? lines).bind fun leader =>
    if ∀ line ∈ lines, isEmptyLine line = false → indentation leader ≤ indentation line then
      some (clip (unindent (indentation leader) lines))
    else none

/-- The blank lines in front are not deeper than the first line that is not blank, as strict readers ask. -/
def LeadingFits (lines : List (List Char)) : Prop :=
  ∀ leader ∈ leader? lines, ∀ line ∈ lines.takeWhile isEmptyLine, line.length ≤ indentation leader

variable {lines : List (List Char)} {line leader cs : List Char} {n k : Nat}

theorem isEmptyLine_indent : isEmptyLine (List.replicate k ' ' ++ line) = isEmptyLine line := by
  simp [isEmptyLine]

theorem indentation_indent : indentation (List.replicate k ' ' ++ line) = k + indentation line := by
  have spaces : ∀ c ∈ List.replicate k ' ', (c == ' ') = true := by simp
  simp [indentation, List.takeWhile_append_of_pos spaces]

theorem leader?_indent : leader? (lines.map (List.replicate k ' ' ++ ·)) =
    (leader? lines).map (List.replicate k ' ' ++ ·) := by
  simp only [leader?, List.find?_map, Function.comp_def, isEmptyLine_indent]

theorem unindent_indent :
    unindent (k + n) (lines.map (List.replicate k ' ' ++ ·)) = unindent n lines := by
  simp [unindent, List.flatMap_map, List.drop_append, List.drop_eq_nil_of_le]

/-- Indenting all lines alike does not change what they are read as. -/
theorem readLiteral?_indent :
    readLiteral? (lines.map (List.replicate k ' ' ++ ·)) = readLiteral? lines := by
  rw [readLiteral?, readLiteral?, leader?_indent, Option.bind_map]
  congr 1
  funext leader
  simp only [Function.comp_apply, indentation_indent, unindent_indent, List.forall_mem_map,
    isEmptyLine_indent, Nat.add_le_add_iff_left]

theorem leadingFits_indent :
    LeadingFits (lines.map (List.replicate k ' ' ++ ·)) ↔ LeadingFits lines := by
  simp [LeadingFits, leader?_indent, List.takeWhile_map, Function.comp_def, isEmptyLine_indent,
    indentation_indent]

/-! ### A text and its lines -/

theorem unindent_splitOn (cs : List Char) : unindent 0 (cs.splitOn '\n') = cs ++ ['\n'] := by
  have joined : ∀ ls : List (List Char), ls ≠ [] →
      ls.flatMap (· ++ ['\n']) = ['\n'].intercalate ls ++ ['\n'] := by
    intro ls some
    induction ls with
    | nil => exact absurd rfl some
    | cons first rest ih =>
      by_cases last : rest = []
      · simp [last]
      · obtain ⟨second, others, rfl⟩ := List.exists_cons_of_ne_nil last
        rw [List.flatMap_cons, ih last, List.intercalate_cons_cons]
        simp
  have parts := joined _ (List.splitOn_ne_nil '\n' cs)
  rw [List.intercalate_splitOn] at parts
  simpa [unindent] using parts

/-- Line feeds at the end of a text are empty lines behind its other lines. -/
theorem splitOn_trimEnd (cs : List Char) : ∃ rest : List (List Char), (∀ line ∈ rest, line = []) ∧
    cs.splitOn '\n' = (Text.trimEndWhile (· == '\n') cs).splitOn '\n' ++ rest := by
  induction cs using List.reverseRecOn with
  | nil => exact ⟨[], by simp, rfl⟩
  | append_singleton cs c ih =>
    rw [Text.trimEndWhile_eq_rdropWhile, List.rdropWhile_concat]
    split
    · next isFeed =>
      obtain ⟨rest, empty, split⟩ := ih
      rw [beq_iff_eq.1 isFeed, List.splitOn_append_cons_self, split, List.splitOn_nil]
      exact ⟨rest ++ [[]], by simpa [or_imp, forall_and] using empty, by rw [List.append_assoc]; rfl⟩
    · exact ⟨[], by simp, (List.append_nil _).symm⟩

theorem exists_leader (solid : ∃ line ∈ lines, isEmptyLine line = false) :
    ∃ leader, leader? lines = some leader := by
  rw [← Option.isSome_iff_exists, leader?, List.find?_isSome]
  simpa using solid

theorem clip_concat : clip (cs ++ ['\n']) = clip cs := by
  rw [clip, Text.trimEndWhile_append_of_all (by simp), clip]

theorem length_clip_le (cs : List Char) : (clip cs).length ≤ cs.length + 1 := by
  have shorter := (List.rdropWhile_prefix (· == '\n') (l := cs)).length_le
  rw [clip, Text.trimEndWhile_eq_rdropWhile, List.length_append, List.length_singleton]
  omega

/-- Every line is followed by a line feed, the last one, too. -/
theorem exists_unindent_eq (n : Nat) (notNil : lines ≠ []) : ∃ start, unindent n lines = start ++ ['\n'] := by
  obtain ⟨front, last, rfl⟩ := List.eq_nil_or_concat lines |>.resolve_left notNil
  exact ⟨unindent n front ++ last.drop n, by simp [unindent]⟩

theorem length_unindent (n : Nat) (lines : List (List Char)) :
    (unindent n lines).length = (lines.map fun line => line.length - n + 1).sum := by
  simp [unindent, List.length_flatMap]

/-- A line that loses characters makes the text shorter. -/
theorem length_unindent_lt (isLine : line ∈ lines) (loses : 0 < n) (has : n ≤ line.length) :
    (unindent n lines).length < (unindent 0 lines).length := by
  rw [length_unindent, length_unindent]
  refine List.sum_lt_sum _ _ (fun other _ => by omega) ⟨line, isLine, by omega⟩

theorem indentation_eq_zero_iff : indentation line = 0 ↔ line.head? ≠ some ' ' := by
  cases line <;> simp [indentation, List.takeWhile_cons]

theorem indentation_le_length (line : List Char) : indentation line ≤ line.length :=
  (List.takeWhile_prefix _).length_le

/-- Lines are read as the text that they are the lines of exactly when the first that is not blank does
not begin with a space. -/
theorem readLiteral?_splitOn_iff (ended : Text.trimEndWhile (· == '\n') cs = cs)
    (isLeader : leader? (cs.splitOn '\n') = some leader) :
    readLiteral? (cs.splitOn '\n') = some (cs ++ ['\n']) ↔ leader.head? ≠ some ' ' := by
  have isLine : leader ∈ cs.splitOn '\n' := List.mem_of_find?_eq_some isLeader
  rw [readLiteral?, isLeader, Option.bind_some, ← indentation_eq_zero_iff]
  constructor
  · intro read
    by_contra deep
    split at read
    · -- The spaces of the first line are lost, and clipping makes up for nothing.
      have shorter := length_unindent_lt isLine (Nat.pos_of_ne_zero deep) (indentation_le_length leader)
      obtain ⟨start, split⟩ := exists_unindent_eq (indentation leader) (List.ne_nil_of_mem isLine)
      have clipped := length_clip_le start
      have lengths := congrArg List.length (Option.some.inj read)
      rw [split, clip_concat] at lengths
      rw [split, unindent_splitOn] at shorter
      simp only [List.length_append, List.length_singleton] at lengths shorter
      omega
    · cases read
  · intro flush
    rw [flush, if_pos (fun line _ _ => Nat.zero_le _), unindent_splitOn, clip_concat, clip, ended]

/-! ### Fields -/

theorem leader?_trimEnd (cs : List Char) :
    leader? ((Text.trimEndWhile (· == '\n') cs).splitOn '\n') = leader? (cs.splitOn '\n') := by
  obtain ⟨rest, empty, split⟩ := splitOn_trimEnd cs
  have none : rest.find? (!isEmptyLine ·) = none := by
    rw [List.find?_eq_none]
    intro line isLine
    simp [empty line isLine, isEmptyLine]
  rw [split, leader?, leader?, List.find?_append, none, Option.or_none]

/-- What stands in front of the first line that is not blank. -/
theorem takeWhile_trimEnd (isLeader : leader? (cs.splitOn '\n') = some leader) :
    ((Text.trimEndWhile (· == '\n') cs).splitOn '\n').takeWhile isEmptyLine =
      (cs.splitOn '\n').takeWhile isEmptyLine := by
  obtain ⟨rest, _, split⟩ := splitOn_trimEnd cs
  rw [← leader?_trimEnd] at isLeader
  obtain ⟨solid, before, behind, lines, blank⟩ := List.find?_eq_some_iff_append.1 isLeader
  have front : ∀ line ∈ before, isEmptyLine line = true := by simpa using blank
  have stop : isEmptyLine leader = false := by simpa using solid
  rw [split, lines, List.append_assoc, List.cons_append, List.takeWhile_append_of_pos front,
    List.takeWhile_append_of_pos front, List.takeWhile_cons_of_neg (by simp [stop]),
    List.takeWhile_cons_of_neg (by simp [stop])]

/-- A literal block is indented by two more spaces than its key. -/
theorem valueField_of_several {value : String} (several : Text.isMultiline value = true) (k : Nat)
    (key : String) : ∃ block : List String,
      valueField (String.ofList (List.replicate k ' ')) key value =
        entry (String.ofList (List.replicate k ' ')) key "|" :: block ∧
      block.map String.toList =
        ((Text.trimEndWhile (· == '\n') value.toList).splitOn '\n').map
          (List.replicate (k + 2) ' ' ++ ·) := by
  refine ⟨_, by rw [valueField, if_pos several], ?_⟩
  simp [Text.indentBy, Text.lines, Text.pieces, Function.comp_def, List.replicate_add]

/-- A text of several lines, one of which is not blank, is read back from its literal block, with one line
feed at its end, exactly when the first line that is not blank does not begin with a space. A strict reader
asks besides that the lines in front of it hold no spaces at all. -/
theorem valueField_readBack_iff {value : String} (several : Text.isMultiline value = true)
    (solid : ∃ line ∈ value.toList.splitOn '\n', isEmptyLine line = false) (k : Nat) (key : String) :
    ∃ leader block, leader? (value.toList.splitOn '\n') = some leader ∧
      valueField (String.ofList (List.replicate k ' ')) key value =
        entry (String.ofList (List.replicate k ' ')) key "|" :: block ∧
      (readLiteral? (block.map String.toList) =
          some (Text.trimEndWhile (· == '\n') value.toList ++ ['\n']) ↔ leader.head? ≠ some ' ') ∧
      (LeadingFits (block.map String.toList) ∧ readLiteral? (block.map String.toList) =
          some (Text.trimEndWhile (· == '\n') value.toList ++ ['\n']) ↔
        leader.head? ≠ some ' ' ∧ ∀ line ∈ (value.toList.splitOn '\n').takeWhile isEmptyLine, line = []) := by
  obtain ⟨leader, isLeader⟩ := exists_leader solid
  obtain ⟨block, field, lines⟩ := valueField_of_several several k key
  have sameLeader := (leader?_trimEnd value.toList).trans isLeader
  have reads : readLiteral? (block.map String.toList) =
      some (Text.trimEndWhile (· == '\n') value.toList ++ ['\n']) ↔ leader.head? ≠ some ' ' := by
    rw [lines, readLiteral?_indent]
    exact readLiteral?_splitOn_iff Text.trimEndWhile_idem sameLeader
  refine ⟨leader, block, isLeader, field, reads, ?_⟩
  rw [reads, and_comm]
  refine and_congr_right fun flush => ?_
  rw [lines, leadingFits_indent, LeadingFits, sameLeader, takeWhile_trimEnd isLeader]
  simp [indentation_eq_zero_iff.2 flush]

/-- A first line with a tab, a deeper line, and line feeds at the end. -/
theorem valueField_readBack_tabbed :
    Text.isMultiline "\tcp a b\n  c\n\n" = true ∧
      (∃ line ∈ "\tcp a b\n  c\n\n".toList.splitOn '\n', isEmptyLine line = false) ∧
      ∃ block, valueField "        " "run" "\tcp a b\n  c\n\n" = entry "        " "run" "|" :: block ∧
        readLiteral? (block.map String.toList) = some "\tcp a b\n  c\n".toList := by
  have several : Text.isMultiline "\tcp a b\n  c\n\n" = true := by decide +kernel
  have solid : ∃ line ∈ "\tcp a b\n  c\n\n".toList.splitOn '\n', isEmptyLine line = false := by
    decide +kernel
  obtain ⟨leader, block, isLeader, field, reads, _⟩ := valueField_readBack_iff several solid 8 "run"
  have first : leader? ("\tcp a b\n  c\n\n".toList.splitOn '\n') = some "\tcp a b".toList := by
    decide +kernel
  have clipped : Text.trimEndWhile (· == '\n') "\tcp a b\n  c\n\n".toList ++ ['\n'] =
      "\tcp a b\n  c\n".toList := by decide +kernel
  obtain rfl := Option.some.inj (first.symm.trans isLeader)
  refine ⟨several, solid, block, field, ?_⟩
  rw [← clipped]
  exact reads.2 (by decide)

/-- The spaces that the first line of a text begins with are taken for indentation. -/
theorem valueField_not_always_readBack :
    ¬ ∀ value : String, Text.isMultiline value = true →
      (∃ line ∈ value.toList.splitOn '\n', isEmptyLine line = false) →
      ∃ block, valueField "        " "run" value = entry "        " "run" "|" :: block ∧
        readLiteral? (block.map String.toList) =
          some (Text.trimEndWhile (· == '\n') value.toList ++ ['\n']) := by
  intro always
  obtain ⟨block, field, read⟩ := always "  a\nb" (by decide +kernel) (by decide +kernel)
  have written : valueField "        " "run" "  a\nb" =
      ["        run: |", "            a", "          b"] := by decide +kernel
  obtain rfl := (List.cons.inj (written.symm.trans field)).2
  revert read
  decide +kernel

end JobFlow.Yaml
