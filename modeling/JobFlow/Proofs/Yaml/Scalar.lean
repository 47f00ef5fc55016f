import JobFlow.Proofs.Text.Trim
import JobFlow.Yaml.Field

/-!
Reading one-line scalars. In single quotes a text is read by taking each pair of quotes for one; without
them it is read as it stands, when nothing in it has a meaning of its own. The scalar that is written for
a text is read as that text, except for a tab next to a colon or a number sign: such a text is written as
it stands, but not read so.
-/

set_option autoImplicit false

namespace JobFlow.Yaml

def OneLine (cs : List Char) : Prop :=
  '\n' ∉ cs ∧ '\r' ∉ cs

instance (cs : List Char) : Decidable (OneLine cs) :=
  inferInstanceAs (Decidable (_ ∧ _))

/-- The characters with which no plain scalar begins. -/
def reserved : List Char :=
  "-?:,[]\x7b\x7d#&*!|>'\"%@\x60".toList

def whites : List Char :=
  [' ', '\t']

structure IsPlain (cs : List Char) : Prop where
  ne_nil : cs ≠ []
  noIndicator : ∀ c ∈ cs.head?, c ∉ reserved
  noBlankStart : ∀ c ∈ cs.head?, Text.isBlank c = false
  noBlankEnd : ∀ c ∈ cs.getLast?, Text.isBlank c = false
  /-- No colon makes what is in front of it a key. -/
  noKey : ∀ white ∈ whites, ¬ [':', white] <:+: cs
  noKeyAtEnd : ¬ [':'] <:+ cs
  /-- No number sign starts a comment. -/
  noComment : ∀ white ∈ whites, ¬ [white, '#'] <:+: cs

def isPlain (cs : List Char) : Bool :=
  !cs.isEmpty && cs.head?.all (fun c => !reserved.contains c && !Text.isBlank c) &&
    cs.getLast?.all (!Text.isBlank ·) && whites.all (fun white => !Text.hasRun [':', white] cs) &&
    !([':'].isSuffixOf cs) && whites.all fun white => !Text.hasRun [white, '#'] cs

theorem isPlain_iff {cs : List Char} : isPlain cs = true ↔ IsPlain cs := by
  simp only [isPlain, Bool.and_eq_true, Bool.not_eq_true', Option.all_eq_true, List.all_eq_true,
    ← Bool.not_eq_true, List.isEmpty_iff, List.contains_iff_mem, Text.hasRun_iff,
    List.isSuffixOf_iff_suffix]
  constructor
  · rintro ⟨⟨⟨⟨⟨notNil, start⟩, ending⟩, noKey⟩, noKeyAtEnd⟩, noComment⟩
    exact ⟨notNil, fun c isFirst => (start c isFirst).1,
      fun c isFirst => Bool.eq_false_iff.2 (start c isFirst).2,
      fun c isLast => Bool.eq_false_iff.2 (ending c isLast), noKey, noKeyAtEnd, noComment⟩
  · intro plain
    refine ⟨⟨⟨⟨⟨plain.ne_nil, ?_⟩, ?_⟩, plain.noKey⟩, plain.noKeyAtEnd⟩, plain.noComment⟩
    · exact fun c isFirst => ⟨plain.noIndicator c isFirst, by simp [plain.noBlankStart c isFirst]⟩
    · exact fun c isLast => by simp [plain.noBlankEnd c isLast]

instance (cs : List Char) : Decidable (IsPlain cs) :=
  decidable_of_iff (isPlain cs = true) isPlain_iff

/-- The text of a single-quoted scalar, from what stands behind its opening quote. The quote that closes
it is its last character. -/
def unquote? : List Char → Option (List Char)
  | [] => none
  | ['\''] => some []
  | '\'' :: '\'' :: rest => (unquote? rest).map ('\'' :: ·)
  | c :: rest => if c = '\'' then none else (unquote? rest).map (c :: ·)

def readScalar? (cs : List Char) : Option (List Char) :=
  if ¬ OneLine cs then none
  else if cs.head? = some '\'' then unquote? cs.tail
  else if IsPlain cs then some cs
  else none

def readField? (indent key line : String) : Option String :=
  let start := (entry indent key "").toList
  if start <+: line.toList then
    (readScalar? (line.toList.drop start.length)).map String.ofList
  else none

/-- A tab behind a colon, which makes a key of the text in front, or before a number sign, which makes a
comment of the text behind. -/
def HasTabbedMark (cs : List Char) : Prop :=
  [':', '\t'] <:+: cs ∨ ['\t', '#'] <:+: cs

variable {cs text : List Char} {c : Char}

theorem unquote?_doubleQuotes (cs : List Char) : unquote? (doubleQuotes cs ++ ['\'']) = some cs := by
  induction cs with
  | nil => rfl
  | cons c cs ih =>
    rw [doubleQuotes] at ih
    rw [doubleQuotes, List.flatMap_cons]
    by_cases quote : c = '\''
    · simp [quote, unquote?, ih]
    · simp [quote, unquote?, ih]

theorem length_of_unquote? (read : unquote? cs = some text) : text.length < cs.length := by
  fun_induction unquote? cs generalizing text with
  | case1 => cases read
  | case2 => cases read; simp
  | case3 rest ih =>
    obtain ⟨inner, readInner, rfl⟩ := Option.map_eq_some_iff.1 read
    have shorter := ih readInner
    simp only [List.length_cons]
    omega
  | case4 => simp_all
  | case5 c rest _ _ other ih => 
    obtain ⟨inner, readInner, rfl⟩ := Option.map_eq_some_iff.1 read
    have shorter := ih readInner
    simp only [List.length_cons]
    omega

/-- A scalar is read as what it says exactly when it is plain. -/
theorem readScalar?_eq_self_iff : readScalar? cs = some cs ↔ OneLine cs ∧ IsPlain cs := by
  unfold readScalar?
  split
  · next broken => simp [broken]
  · next oneLine =>
    rw [not_not] at oneLine
    split
    · next quoted =>
      obtain ⟨rest, rfl⟩ := List.head?_eq_some_iff.1 quoted
      constructor
      · intro read
        -- The text in the quotes is shorter than the scalar.
        have shorter := length_of_unquote? read
        simp only [List.tail_cons, List.length_cons] at shorter
        omega
      · rintro ⟨_, plain⟩
        exact absurd (by decide) (plain.noIndicator '\'' rfl)
    · simp [oneLine]

theorem mem_doubleQuotes : c ∈ doubleQuotes cs ↔ c ∈ cs := by
  simp only [doubleQuotes, List.mem_flatMap]
  constructor
  · rintro ⟨d, isMember, written⟩
    split at written <;> simp_all
  · intro isMember
    exact ⟨c, isMember, by split <;> simp_all⟩

theorem length_le_doubleQuotes (cs : List Char) : cs.length ≤ (doubleQuotes cs).length := by
  induction cs with
  | nil => simp
  | cons c cs ih =>
    rw [doubleQuotes] at ih ⊢
    rw [List.flatMap_cons, List.length_append]
    have some : 1 ≤ (if c = '\'' then ['\'', '\''] else [c]).length := by split <;> simp
    simp only [List.length_cons]
    omega

/-- The quotes around a text are undone by reading. -/
theorem readScalar?_quoted (oneLine : OneLine cs) :
    readScalar? ('\'' :: doubleQuotes cs ++ ['\'']) = some cs := by
  have written : OneLine ('\'' :: doubleQuotes cs ++ ['\'']) := by
    simpa [OneLine, mem_doubleQuotes] using oneLine
  rw [readScalar?, if_neg (not_not_intro written), List.cons_append, List.head?_cons, if_pos rfl]
  exact unquote?_doubleQuotes cs

theorem scalarChars_eq_self_iff : scalarChars cs = cs ↔ needsQuotes cs = false := by
  rw [scalarChars]
  split
  · next quoted =>
    have longer := length_le_doubleQuotes cs
    refine iff_of_false (fun same => ?_) (by simp [quoted])
    have lengths := congrArg List.length same
    simp only [List.cons_append, List.length_cons, List.length_append, List.length_nil] at lengths
    omega
  · next asItStands => simpa using asItStands

theorem doubleQuotes_of_notMem (free : '\'' ∉ cs) : doubleQuotes cs = cs := by
  have once : doubleQuotes cs = cs.flatMap fun c => [c] := by
    refine List.flatMap_congr fun c isMember => if_neg ?_
    rintro rfl
    exact free isMember
  rw [once, List.flatMap_singleton']

/-- A text of one line is written on one line. -/
theorem notMem_scalarChars (single : '\n' ∉ cs) : '\n' ∉ scalarChars cs := by
  rw [scalarChars]
  split
  · simpa [mem_doubleQuotes] using single
  · exact single

theorem mem_reserved_iff : c ∈ reserved ↔ c ∈ indicators :=
  ⟨fun isMember => (by decide : reserved ⊆ indicators) isMember,
    fun isMember => (by decide : indicators ⊆ reserved) isMember⟩

/-- Why a text is put in quotes. -/
theorem needsQuotes_iff : needsQuotes cs = true ↔
    cs = [] ∨ (∃ c ∈ cs.head?, c ∈ reserved) ∨ [':'] <:+ cs ∨ Text.trim cs ≠ cs ∨
      [':', ' '] <:+: cs ∨ [' ', '#'] <:+: cs := by
  cases cs with
  | nil => simp [needsQuotes]
  | cons first rest =>
    simp [needsQuotes, mem_reserved_iff, Text.hasRun_iff, List.isSuffixOf_iff_suffix, or_assoc]

/-- A scalar has no outer blanks. -/
theorem trim_scalarChars (cs : List Char) : Text.trim (scalarChars cs) = scalarChars cs := by
  rw [scalarChars]
  split
  · have around : Text.trim ([] ++ ('\'' :: doubleQuotes cs ++ ['\'']) ++ []) = _ :=
      Text.trim_around (by decide) (by decide)
    simpa [Text.trimEndWhile] using around
  · next asItStands =>
    rw [needsQuotes_iff] at asItStands
    push Not at asItStands
    exact asItStands.2.2.2.1

/-- Of the texts that are written as they stand, those are plain in which no tab gives a colon or a number
sign its meaning. -/
theorem isPlain_iff_of_not_needsQuotes (asItStands : needsQuotes cs = false) :
    IsPlain cs ↔ ¬ HasTabbedMark cs := by
  rw [← Bool.not_eq_true, needsQuotes_iff] at asItStands
  push Not at asItStands
  obtain ⟨some, noIndicator, noKeyAtEnd, trimmed, noKey, noComment⟩ := asItStands
  obtain ⟨noBlankStart, noBlankEnd⟩ := Text.trim_eq_self_iff.1 trimmed
  constructor
  · rintro plain (key | comment)
    · exact plain.noKey '\t' (by simp [whites]) key
    · exact plain.noComment '\t' (by simp [whites]) comment
  · intro noTab
    obtain ⟨noTabbedKey, noTabbedComment⟩ := not_or.1 noTab
    refine ⟨some, noIndicator, noBlankStart, noBlankEnd, ?_, noKeyAtEnd, ?_⟩
    · simpa [whites] using ⟨noKey, noTabbedKey⟩
    · simpa [whites] using ⟨noComment, noTabbedComment⟩

theorem readScalar?_scalarChars_iff (oneLine : OneLine cs) :
    readScalar? (scalarChars cs) = some cs ↔ (scalarChars cs = cs → ¬ HasTabbedMark cs) := by
  by_cases asItStands : scalarChars cs = cs
  · have plain := isPlain_iff_of_not_needsQuotes (scalarChars_eq_self_iff.1 asItStands)
    rw [asItStands, readScalar?_eq_self_iff]
    simp [oneLine, plain]
  · have quoted : needsQuotes cs = true := by simpa [scalarChars_eq_self_iff] using asItStands
    simp only [asItStands, false_imp_iff, iff_true]
    rw [scalarChars, if_pos quoted]
    exact readScalar?_quoted oneLine

section field

variable {indent key value written : String}

theorem readField?_entry : readField? indent key (entry indent key written) =
    (readScalar? written.toList).map String.ofList := by
  have split : (entry indent key written).toList = (entry indent key "").toList ++ written.toList := by
    simp [entry]
  rw [readField?, split, if_pos (List.prefix_append _ _), List.drop_left]

theorem readField?_entry_eq_some_iff :
    readField? indent key (entry indent key written) = some value ↔
      readScalar? written.toList = some value.toList := by
  rw [readField?_entry, Option.map_eq_some_iff]
  constructor
  · rintro ⟨text, read, rfl⟩
    rwa [String.toList_ofList]
  · intro read
    exact ⟨value.toList, read, String.ofList_toList⟩

/-- A one-line text is read back from the line of its field, unless it is written as it stands though a tab
gives a colon or a number sign in it a meaning. -/
theorem readField?_scalar_iff (oneLine : OneLine value.toList) (indent key : String) :
    readField? indent key (entry indent key (scalar value)) = some value ↔
      (scalar value = value → ¬ HasTabbedMark value.toList) := by
  rw [readField?_entry_eq_some_iff, toList_scalar, readScalar?_scalarChars_iff oneLine,
    ← String.toList_inj, toList_scalar]

theorem notMem_scalar (single : '\n' ∉ value.toList) : '\n' ∉ (scalar value).toList := by
  rw [toList_scalar]
  exact notMem_scalarChars single

/-- A text is written in quotes, with every quote in it doubled, or as it stands. -/
theorem scalar_cases (value : String) :
    (∃ inside : String, scalar value = "'" ++ inside ++ "'" ∧
      unquote? (inside ++ "'").toList = some value.toList) ∨
    scalar value = value ∧ needsQuotes value.toList = false := by
  cases quoted : needsQuotes value.toList with
  | true =>
    refine Or.inl ⟨String.ofList (doubleQuotes value.toList), ?_, ?_⟩
    · apply String.toList_injective
      rw [toList_scalar, scalarChars, if_pos quoted]
      simp
    · rw [String.toList_append, String.toList_ofList]
      exact unquote?_doubleQuotes value.toList
  | false =>
    refine Or.inr ⟨String.toList_injective ?_, rfl⟩
    rw [toList_scalar, scalarChars_eq_self_iff.2 quoted]

/-- A one-line text is written in quotes that are undone by reading, or it is written as it stands, and
then it is plain but for tabs that give a colon or a number sign in it a meaning. Exactly with such tabs it
is not read back. -/
theorem scalar_readBack (oneLine : OneLine value.toList) (indent key : String) :
    (readField? indent key (entry indent key (scalar value)) = some value ↔
      (scalar value = value → ¬ HasTabbedMark value.toList)) ∧
    ((∃ inside : String, scalar value = "'" ++ inside ++ "'" ∧
        unquote? (inside ++ "'").toList = some value.toList) ∨
      scalar value = value ∧ (IsPlain value.toList ↔ ¬ HasTabbedMark value.toList)) := by
  refine ⟨readField?_scalar_iff oneLine indent key, ?_⟩
  rcases scalar_cases value with quoted | ⟨asItStands, noQuotes⟩
  · exact Or.inl quoted
  · exact Or.inr ⟨asItStands, isPlain_iff_of_not_needsQuotes noQuotes⟩

/-- Quotes in a text are doubled, and undone when it is read. -/
theorem scalar_readBack_quotes :
    OneLine "'it''s' a: b".toList ∧ scalar "'it''s' a: b" = "'''it''''s'' a: b'" ∧
      readField? "  " "run" (entry "  " "run" (scalar "'it''s' a: b")) = some "'it''s' a: b" := by
  have oneLine : OneLine "'it''s' a: b".toList := by decide
  have written : scalar "'it''s' a: b" = "'''it''''s'' a: b'" := by decide +kernel
  refine ⟨oneLine, written, (scalar_readBack oneLine "  " "run").1.2 fun same => ?_⟩
  exact absurd (written.symm.trans same) (by decide)

/-- A tab behind a colon is not seen when the text is written. -/
theorem scalar_not_always_readBack :
    ¬ ∀ value : String, OneLine value.toList → ∀ indent key : String,
      readField? indent key (entry indent key (scalar value)) = some value := by
  intro always
  have oneLine : OneLine "a:\tb".toList := by decide
  have asItStands : scalar "a:\tb" = "a:\tb" := by decide +kernel
  have noTab := (readField?_scalar_iff oneLine "" "key").1 (always _ oneLine _ _) asItStands
  exact noTab (Or.inl ⟨['a'], ['b'], rfl⟩)

/-- Among the lines is the field of the key with the text as its scalar, which is read back unless it is
written as it stands though a tab gives a colon or a number sign in it a meaning. -/
def HasTextField (lines : List String) (indent key text : String) : Prop :=
  entry indent key (scalar text) ∈ lines ∧ (OneLine text.toList →
    (readField? indent key (entry indent key (scalar text)) = some text ↔
      (scalar text = text → ¬ HasTabbedMark text.toList)))

theorem hasTextField_iff {lines : List String} :
    HasTextField lines indent key value ↔ entry indent key (scalar value) ∈ lines :=
  and_iff_left fun oneLine => readField?_scalar_iff oneLine indent key

end field

end JobFlow.Yaml
