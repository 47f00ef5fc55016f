import JobFlow.Expression
import JobFlow.Proofs.Expression.Tokens

/-!
The lines of a long condition. It is cut between tokens only, behind the first operator at which a piece
is long enough, and behind nothing else. So every literal stands whole in one of the lines, and folding
the lines gives the condition back but for the blanks at the cuts.
-/

set_option autoImplicit false

namespace JobFlow.Expression

variable {threshold : Int} {c : Char} {line cs rest : List Char} {piece ts : List Token}
  {pieces : List (List Token)}

def Token.isOperator : Token → Bool
  | operator _ => true
  | _ => false

/-- A piece may end here: behind an operator, once its trimmed length has reached the threshold. -/
def MayEnd (threshold : Int) (piece : List Token) : Prop :=
  piece.getLast?.any Token.isOperator = true ∧ threshold ≤ ((Text.trim (text piece)).length : Int)

instance (threshold : Int) (piece : List Token) : Decidable (MayEnd threshold piece) :=
  inferInstanceAs (Decidable (_ ∧ _))

/-- Pieces that end as early as they may; the last one has no place to end earlier. -/
inductive Greedy (threshold : Int) : List (List Token) → Prop
  | last {piece : List Token} (uncut : ∀ start, start <+: piece → ¬ MayEnd threshold start) :
      Greedy threshold [piece]
  | cut {piece : List Token} {pieces : List (List Token)} (ends : MayEnd threshold piece)
      (earliest : ∀ start, start <+: piece → MayEnd threshold start → start = piece)
      (rest : Greedy threshold pieces) : Greedy threshold (piece :: pieces)

/-- The tokens behind `piece`, the start of the current one, in pieces. -/
def group (threshold : Int) (piece : List Token) : List Token → List (List Token)
  | [] => [piece]
  | t :: ts =>
    if MayEnd threshold (piece ++ [t]) then (piece ++ [t]) :: group threshold [] ts
    else group threshold (piece ++ [t]) ts

theorem flatten_group : (group threshold piece ts).flatten = piece ++ ts := by
  induction ts generalizing piece with
  | nil => simp [group]
  | cons t ts ih =>
    rw [group]
    split
    · rw [List.flatten_cons, ih, List.nil_append, List.append_assoc, List.singleton_append]
    · rw [ih, List.append_assoc, List.singleton_append]

theorem not_mayEnd_nil : ¬ MayEnd threshold [] := by
  simp [MayEnd]

/-- A piece that could not end so far is continued to the first place where it may. -/
theorem greedy_group (uncut : ∀ start, start <+: piece → ¬ MayEnd threshold start) :
    Greedy threshold (group threshold piece ts) := by
  induction ts generalizing piece with
  | nil => exact .last uncut
  | cons t ts ih =>
    rw [group]
    split
    · next ends =>
      refine .cut ends ?_ (ih ?_)
      · intro start isStart mayEnd
        rcases List.prefix_concat_iff.1 isStart with whole | before
        · exact whole
        · exact absurd mayEnd (uncut start before)
      · intro start isStart
        rw [List.prefix_nil.1 isStart]
        exact not_mayEnd_nil
    · next goesOn =>
      refine ih fun start isStart => ?_
      rcases List.prefix_concat_iff.1 isStart with rfl | before
      · exact goesOn
      · exact uncut start before

/-- Of two pieces in front of the same tokens, one begins with the other; where both may end and neither
could end earlier, they are equal. -/
theorem eq_of_earliest {p q ps qs : List Token} (same : p ++ ps = q ++ qs) (endsP : MayEnd threshold p)
    (endsQ : MayEnd threshold q) (earliestP : ∀ start, start <+: p → MayEnd threshold start → start = p)
    (earliestQ : ∀ start, start <+: q → MayEnd threshold start → start = q) : p = q := by
  have isStart : q <+: p ++ ps := same ▸ List.prefix_append q qs
  rcases List.prefix_or_prefix_of_prefix (List.prefix_append p ps) isStart with before | before
  · exact earliestQ p before endsP
  · exact (earliestP q before endsQ).symm

/-- Tokens have one greedy split only. -/
theorem Greedy.unique {others : List (List Token)} (greedy : Greedy threshold pieces)
    (also : Greedy threshold others) (same : pieces.flatten = others.flatten) : pieces = others := by
  induction greedy generalizing others with
  | @last piece uncut =>
    cases also with
    | last => simpa using same
    | @cut other rest ends =>
      rw [List.flatten_singleton, List.flatten_cons] at same
      exact absurd ends (uncut other (same ▸ List.prefix_append _ _))
  | @cut piece pieces ends earliest rest ih =>
    cases also with
    | @last other uncut =>
      rw [List.flatten_singleton, List.flatten_cons] at same
      exact absurd ends (uncut piece (same ▸ List.prefix_append _ _))
    | @cut other others endsToo earliestToo restToo =>
      rw [List.flatten_cons, List.flatten_cons] at same
      obtain rfl := eq_of_earliest same ends endsToo earliest earliestToo
      rw [ih restToo (List.append_cancel_left same)]

theorem mayEnd_operator {kind : Operator} :
    MayEnd threshold (piece ++ [.operator kind]) ↔
      isFull threshold (text (piece ++ [.operator kind])) = true := by
  simp [MayEnd, isFull, Token.isOperator]

theorem not_mayEnd_of_not_operator {t : Token} (other : t.isOperator = false) :
    ¬ MayEnd threshold (piece ++ [t]) := by
  simp [MayEnd, other]

theorem isQuote_of_ofChar? {quote : Quote} (isQuote : Quote.ofChar? c = some quote) :
    Expression.isQuote c = true := by
  rw [← Quote.ofChar?_eq_some isQuote]
  cases quote <;> rfl

theorem not_isQuote_of_ofChar? (noQuote : Quote.ofChar? c = none) : isQuote c = false := by
  by_contra isQuote
  simp only [Expression.isQuote, Bool.not_eq_false, Bool.or_eq_true, beq_iff_eq] at isQuote
  rcases isQuote with rfl | rfl <;> cases noQuote

theorem not_isQuote_char (kind : Operator) : isQuote kind.char = false := by
  cases kind <;> rfl

theorem isOperator_char (kind : Operator) : isOperator kind.char kind.char = true := by
  cases kind <;> rfl

theorem not_isOperator_of_ofStart? {d : Char} (noOperator : Operator.ofStart? (c :: d :: rest) = none) :
    isOperator c d = false := by
  by_contra isOperator
  simp only [Expression.isOperator, Bool.not_eq_false, Bool.or_eq_true, Bool.and_eq_true,
    beq_iff_eq] at isOperator
  rcases isOperator with ⟨rfl, rfl⟩ | ⟨rfl, rfl⟩ <;> cases noOperator

theorem cut_quote (isQuote : Expression.isQuote c = true) :
    cut threshold none line (c :: rest) = cut threshold (some c) (line ++ [c]) rest := by
  cases rest <;> simp [cut, isQuote]

theorem cut_operator (kind : Operator) :
    cut threshold none line (kind.char :: kind.char :: rest) =
      if isFull threshold (line ++ [kind.char, kind.char]) then
        (line ++ [kind.char, kind.char]) :: cut threshold none [] rest
      else cut threshold none (line ++ [kind.char, kind.char]) rest := by
  simp [cut, not_isQuote_char, isOperator_char]

theorem cut_plain (noQuote : Quote.ofChar? c = none) (noOperator : Operator.ofStart? (c :: rest) = none) :
    cut threshold none line (c :: rest) = cut threshold none (line ++ [c]) rest := by
  cases rest with
  | nil => simp [cut, not_isQuote_of_ofChar? noQuote]
  | cons d rest =>
    simp [cut, not_isQuote_of_ofChar? noQuote, not_isOperator_of_ofStart? noOperator]

/-- Inside quotes nothing is cut: the literal goes to the current piece as it stands. -/
theorem cut_quoted {body : List Char} (absent : c ∉ body) :
    cut threshold (some c) line (body ++ c :: rest) =
      cut threshold none (line ++ (body ++ [c])) rest := by
  induction body generalizing line with
  | nil => simp [cut]
  | cons d body ih =>
    obtain ⟨other, absentRest⟩ := not_or.1 (mt List.mem_cons.2 absent)
    rw [List.cons_append, cut, if_neg (Ne.symm other), ih absentRest, List.append_assoc]
    rfl

theorem cut_unclosed {body : List Char} (absent : c ∉ body) :
    cut threshold (some c) line body = [line ++ body] := by
  induction body generalizing line with
  | nil => simp [cut]
  | cons d body ih =>
    obtain ⟨other, absentRest⟩ := not_or.1 (mt List.mem_cons.2 absent)
    rw [cut, if_neg (Ne.symm other), ih absentRest, List.append_assoc]
    rfl

/-- Cutting characters is grouping tokens. -/
theorem cut_eq_group :
    cut threshold none (text piece) cs = (group threshold piece (tokens cs)).map text := by
  fun_induction tokens cs generalizing piece with
  | case1 => rfl
  | case2 c rest quote isQuote closed ih =>
    have absent : c ∉ rest.takeWhile (· ≠ c) := fun isMember =>
      absurd (List.mem_takeWhile_imp isMember) (by simp)
    rw [group, if_neg (not_mayEnd_of_not_operator rfl), ← ih, cut_quote (isQuote_of_ofChar? isQuote)]
    conv_lhs => rw [takeWhile_quote closed]
    rw [cut_quoted absent, text_append, text_singleton, Token.chars, Quote.ofChar?_eq_some isQuote]
    simp
  | case3 c rest quote isQuote unclosed =>
    rw [group, if_neg (not_mayEnd_of_not_operator rfl), group, cut_quote (isQuote_of_ofChar? isQuote),
      cut_unclosed unclosed]
    simp [text_append, text_singleton, Token.chars, Quote.ofChar?_eq_some isQuote]
  | case4 c rest noQuote kind isOperator ih =>
    obtain ⟨rfl, second⟩ := Operator.ofStart?_eq_some isOperator
    have whole : text (piece ++ [.operator kind]) = text piece ++ [kind.char, kind.char] := by
      rw [text_append, text_singleton, Token.chars]
    conv_lhs => rw [second]
    rw [cut_operator, group, ← whole, ih]
    by_cases full : isFull threshold (text (piece ++ [.operator kind])) = true
    · rw [if_pos full, if_pos (mayEnd_operator.2 full), List.map_cons, ← text_nil, ih]
    · rw [if_neg full, if_neg (mt mayEnd_operator.1 full)]
  | case5 c rest noQuote noOperator ih =>
    rw [cut_plain noQuote noOperator, group, if_neg (not_mayEnd_of_not_operator rfl), ← ih, text_append,
      text_singleton, Token.chars]

/-! ### Folding -/

/-- A piece behind a cut, with one space in the place of the blanks that it begins with. A piece without
text is left as it is; only the last one may be so. -/
def spacedPiece (piece : List Char) : List Char :=
  if piece.all Text.isBlank then piece else ' ' :: piece.dropWhile Text.isBlank

/-- The characters of pieces, with one space for the blanks behind each cut that more text follows. -/
def spaced : List (List Char) → List Char
  | [] => []
  | first :: rest => first ++ rest.flatMap spacedPiece

/-- The lines that pieces become: trimmed, and without those that hold no text. -/
def trimmed (pieces : List (List Char)) : List (List Char) :=
  (pieces.map Text.trim).filter (!·.isEmpty)

/-- A text whose last character is not blank. -/
def Solid (cs : List Char) : Prop :=
  ∃ start c, cs = start ++ [c] ∧ Text.isBlank c = false

theorem Solid.keeps (solid : Solid cs) : ∃ c ∈ cs, Text.isBlank c = false := by
  obtain ⟨start, c, rfl, kept⟩ := solid
  exact ⟨c, by simp, kept⟩

theorem Solid.append (solid : Solid cs) (front : List Char) : Solid (front ++ cs) := by
  obtain ⟨start, c, rfl, kept⟩ := solid
  exact ⟨front ++ start, c, (List.append_assoc ..).symm, kept⟩

theorem Solid.trimEnd (solid : Solid cs) : Text.trimEndWhile Text.isBlank cs = cs := by
  obtain ⟨start, c, rfl, kept⟩ := solid
  exact Text.trimEndWhile_concat kept

theorem Solid.dropWhile (solid : Solid cs) : Solid (cs.dropWhile Text.isBlank) := by
  obtain ⟨start, c, rfl, kept⟩ := solid
  rw [List.dropWhile_append]
  split
  · exact ⟨[], c, by simp [kept], kept⟩
  · exact ⟨_, c, rfl, kept⟩

theorem trimmed_of_blank (blank : ∀ c ∈ cs, Text.isBlank c = true) : trimmed [cs] = [] := by
  simp [trimmed, Text.trim_eq_nil_iff.2 blank]

theorem trimmed_cons (keeps : ∃ c ∈ cs, Text.isBlank c = false) (ps : List (List Char)) :
    trimmed (cs :: ps) = Text.trim cs :: trimmed ps := by
  have some : Text.trim cs ≠ [] := by simpa [Text.trim_eq_nil_iff] using keeps
  simp [trimmed, some]

theorem intercalate_space (first : List Char) (others : List (List Char)) :
    [' '].intercalate (first :: others) = first ++ others.flatMap (' ' :: ·) := by
  induction others generalizing first with
  | nil => simp
  | cons second others ih => simp [List.intercalate_cons_cons, ih]

section folding

variable {p q : List Char} {ps : List (List Char)}

/-- Of pieces that are solid but for the last one, only that may be blank. -/
theorem eq_nil_of_blank (solids : ∀ r ∈ (p :: ps).dropLast, Solid r)
    (blank : ∀ c ∈ p, Text.isBlank c = true) : ps = [] := by
  by_contra more
  rw [List.dropLast_cons_of_ne_nil more] at solids
  obtain ⟨c, isMember, kept⟩ := (solids p List.mem_cons_self).keeps
  exact absurd (blank c isMember) (by simp [kept])

/-- The first piece may be replaced by one that ends alike. -/
theorem solids_of_first (solids : ∀ r ∈ (p :: ps).dropLast, Solid r) (alike : Solid p → Solid q) :
    ∀ r ∈ (q :: ps).dropLast, Solid r := by
  by_cases isLast : ps = []
  · simp [isLast]
  · rw [List.dropLast_cons_of_ne_nil isLast, List.forall_mem_cons] at solids ⊢
    exact ⟨alike solids.1, solids.2⟩

/-- A piece grows by one space and the text of the next piece, until it is the whole text. -/
theorem trimEnd_spacedPieces (solids : ∀ r ∈ (p :: ps).dropLast, Solid r) :
    Text.trimEndWhile Text.isBlank (p ++ ps.flatMap spacedPiece) =
      Text.trimEndWhile Text.isBlank p ++ (trimmed ps).flatMap (' ' :: ·) := by
  induction ps generalizing p with
  | nil => simp [trimmed]
  | cons next ps ih =>
    rw [List.dropLast_cons_of_ne_nil (List.cons_ne_nil next ps), List.forall_mem_cons] at solids
    obtain ⟨solid, solids⟩ := solids
    rw [List.flatMap_cons, solid.trimEnd, spacedPiece]
    by_cases blank : ∀ c ∈ next, Text.isBlank c = true
    · obtain rfl := eq_nil_of_blank solids blank
      rw [if_pos (List.all_eq_true.2 blank), List.flatMap_nil, List.append_nil,
        Text.trimEndWhile_append_of_all blank, solid.trimEnd, trimmed_of_blank blank, List.flatMap_nil,
        List.append_nil]
    · have keeps : ∃ c ∈ next, Text.isBlank c = false := by simpa using blank
      have joined : ∀ r ∈ ((p ++ ' ' :: next.dropWhile Text.isBlank) :: ps).dropLast, Solid r :=
        solids_of_first solids fun solid => (solid.dropWhile.append [' ']).append p
      have ended : Text.trimEndWhile Text.isBlank ((p ++ [' ']) ++ next.dropWhile Text.isBlank) =
          (p ++ [' ']) ++ Text.trim next :=
        Text.trimEndWhile_append (Text.exists_mem_dropWhile keeps)
      rw [List.append_assoc, List.append_assoc, List.singleton_append, List.singleton_append] at ended
      rw [if_neg (mt List.all_eq_true.1 blank), ← List.append_assoc, ih joined, ended, trimmed_cons keeps,
        List.flatMap_cons, List.append_assoc]

/-- Folding puts one space between lines. -/
theorem intercalate_trimmed (solids : ∀ r ∈ ps.dropLast, Solid r) :
    [' '].intercalate (trimmed ps) = Text.trim (spaced ps) := by
  cases ps with
  | nil => rfl
  | cons p ps =>
    by_cases blank : ∀ c ∈ p, Text.isBlank c = true
    · obtain rfl := eq_nil_of_blank solids blank
      simp [trimmed_of_blank blank, spaced, Text.trim_eq_nil_iff.2 blank]
    · have keeps : ∃ c ∈ p, Text.isBlank c = false := by simpa using blank
      have started : ∀ r ∈ (p.dropWhile Text.isBlank :: ps).dropLast, Solid r :=
        solids_of_first solids Solid.dropWhile
      calc [' '].intercalate (trimmed (p :: ps))
        _ = Text.trim p ++ (trimmed ps).flatMap (' ' :: ·) := by
          rw [trimmed_cons keeps, intercalate_space]
        _ = Text.trimEndWhile Text.isBlank (p.dropWhile Text.isBlank ++ ps.flatMap spacedPiece) :=
          (trimEnd_spacedPieces started).symm
        _ = Text.trim (spaced (p :: ps)) := by
          rw [spaced, Text.trim, Text.trimWhile, Text.dropWhile_append keeps]

end folding

/-- A place where a piece may end is behind an operator, which is no blank. -/
theorem solid_of_mayEnd (mayEnd : MayEnd threshold piece) : Solid (text piece) := by
  obtain ⟨endsWithOperator, _⟩ := mayEnd
  rcases List.eq_nil_or_concat piece with rfl | ⟨start, t, rfl⟩
  · simp at endsWithOperator
  · cases t with
    | operator kind =>
      exact ⟨text start ++ [kind.char], kind.char, by simp [text_append, text_singleton, Token.chars],
        kind.isBlank_char⟩
    | plain c => simp [Token.isOperator] at endsWithOperator
    | literal quote body => simp [Token.isOperator] at endsWithOperator
    | unclosed quote body => simp [Token.isOperator] at endsWithOperator

theorem Greedy.solids (greedy : Greedy threshold pieces) :
    ∀ r ∈ (pieces.map text).dropLast, Solid r := by
  induction greedy with
  | last => simp
  | @cut piece pieces ends earliest rest ih =>
    have more : pieces.map text ≠ [] := by
      cases rest <;> simp
    rw [List.map_cons, List.dropLast_cons_of_ne_nil more, List.forall_mem_cons]
    exact ⟨solid_of_mayEnd ends, ih⟩

/-- The lines of a condition are the trimmed pieces, without blank ones, of the only split of its tokens that
is cut behind the first operator at which a piece is long enough, again and again. A literal stands in its
line as it was, and the lines with single spaces between them are the condition, trimmed, with one space
for the blanks behind each cut that more text follows. -/
theorem breakLines_greedy (threshold : Int) (expression : String) :
    ∃ pieces : List (List Token),
      pieces.flatten = tokens expression.toList ∧
      (pieces.map text).flatten = expression.toList ∧
      Greedy threshold pieces ∧
      (∀ others, others.flatten = tokens expression.toList → Greedy threshold others → others = pieces) ∧
      breakLines threshold expression = (trimmed (pieces.map text)).map String.ofList ∧
      (∀ before quote body behind, before ++ .literal quote body :: behind ∈ pieces →
        Text.trim (text (before ++ .literal quote body :: behind)) =
          (text before).dropWhile Text.isBlank ++ (Token.literal quote body).chars ++
            Text.trimEndWhile Text.isBlank (text behind)) ∧
      " ".intercalate (breakLines threshold expression) =
        Text.strip (String.ofList (spaced (pieces.map text))) := by
  have greedy : Greedy threshold (group threshold [] (tokens expression.toList)) :=
    greedy_group fun start isStart => List.prefix_nil.1 isStart ▸ not_mayEnd_nil
  have whole : (group threshold [] (tokens expression.toList)).flatten = tokens expression.toList :=
    flatten_group
  have lines : breakLines threshold expression =
      (trimmed ((group threshold [] (tokens expression.toList)).map text)).map String.ofList := by
    rw [breakLines, ← text_nil, cut_eq_group, trimmed]
  refine ⟨_, whole, ?_, greedy, ?_, lines, ?_, ?_⟩
  · rw [← text_flatten, whole, text_tokens]
  · intro others sameTokens also
    exact also.unique greedy (sameTokens.trans whole.symm)
  · intro before quote body behind _
    exact trim_text_literal quote body
  · apply String.toList_injective
    have characters : (trimmed ((group threshold [] (tokens expression.toList)).map text)).map
        (String.toList ∘ String.ofList) = _ := List.map_id'' (fun _ => String.toList_ofList) _
    rw [lines, String.toList_intercalate, List.map_map, characters, Text.toList_strip]
    exact (intercalate_trimmed greedy.solids).trans (congrArg Text.trim String.toList_ofList.symm)

example : breakLines 5 "a == 'x && y' && bbbbbbbb || c" = ["a == 'x && y' &&", "bbbbbbbb ||", "c"] := by
  decide +kernel

end JobFlow.Expression
