import JobFlow.Proofs.Text.Trim

/-!
Conditions as sequences of tokens. A condition is read from its start: a quote opens a literal that goes
to the next quote of the same kind, and outside quotes two equal characters may form an operator. What
the reader takes as one token is never divided later.
-/

set_option autoImplicit false

namespace JobFlow.Expression

inductive Quote
  | single
  | double
  deriving DecidableEq, Repr

inductive Operator
  | and
  | or
  deriving DecidableEq, Repr

def Quote.char : Quote → Char
  | single => '\''
  | double => '"'

def Operator.char : Operator → Char
  | and => '&'
  | or => '|'

def Quote.ofChar? (c : Char) : Option Quote :=
  if c = '\'' then some single else if c = '"' then some double else none

def Operator.ofStart? : List Char → Option Operator
  | '&' :: '&' :: _ => some and
  | '|' :: '|' :: _ => some or
  | _ => none

inductive Token
  /-- A character outside quotes that is no part of an operator. -/
  | plain (c : Char)
  /-- An operator outside quotes. -/
  | operator (kind : Operator)
  /-- A quoted text with both of its quotes. -/
  | literal (quote : Quote) (body : List Char)
  /-- A quoted text that goes to the end of the condition. -/
  | unclosed (quote : Quote) (body : List Char)
  deriving DecidableEq, Repr

def Token.chars : Token → List Char
  | plain c => [c]
  | operator kind => [kind.char, kind.char]
  | literal quote body => quote.char :: body ++ [quote.char]
  | unclosed quote body => quote.char :: body

def text (tokens : List Token) : List Char :=
  tokens.flatMap Token.chars

/-- The tokens of a condition, read from left to right. -/
def tokens : List Char → List Token
  | [] => []
  | c :: rest =>
    match Quote.ofChar? c with
    | some quote =>
      if c ∈ rest then
        .literal quote (rest.takeWhile (· ≠ c)) :: tokens (rest.dropWhile (· ≠ c)).tail
      else [.unclosed quote rest]
    | none =>
      match Operator.ofStart? (c :: rest) with
      | some kind => .operator kind :: tokens rest.tail
      | none => .plain c :: tokens rest
termination_by cs => cs.length
decreasing_by
  · have shorter := (List.dropWhile_suffix (· ≠ c) (l := rest)).length_le
    simp only [List.length_tail, List.length_cons]
    omega
  · simp only [List.length_tail, List.length_cons]
    omega
  · simp

variable {c : Char} {rest : List Char} {ts us : List Token}

theorem text_nil : text [] = [] := rfl

theorem text_append : text (ts ++ us) = text ts ++ text us := List.flatMap_append

theorem text_singleton {t : Token} : text [t] = t.chars := List.flatMap_singleton ..

theorem text_cons {t : Token} : text (t :: ts) = t.chars ++ text ts := List.flatMap_cons

theorem text_flatten {pieces : List (List Token)} : text pieces.flatten = (pieces.map text).flatten := by
  induction pieces with
  | nil => rfl
  | cons piece pieces ih => simp [text_append, ih]

theorem Quote.ofChar?_eq_some {quote : Quote} (h : Quote.ofChar? c = some quote) : quote.char = c := by
  unfold Quote.ofChar? at h
  split at h
  · cases h
    simp_all [Quote.char]
  · split at h
    · cases h
      simp_all [Quote.char]
    · cases h

theorem Operator.ofStart?_eq_some {kind : Operator} (h : Operator.ofStart? (c :: rest) = some kind) :
    c = kind.char ∧ rest = kind.char :: rest.tail := by
  unfold Operator.ofStart? at h
  split at h
  · next same => cases h; cases same; exact ⟨rfl, rfl⟩
  · next same => cases h; cases same; exact ⟨rfl, rfl⟩
  · cases h

theorem Quote.isBlank_char (quote : Quote) : Text.isBlank quote.char = false := by
  cases quote <;> decide

theorem Operator.isBlank_char (kind : Operator) : Text.isBlank kind.char = false := by
  cases kind <;> decide

/-- The next quote closes the literal: what is in front of it, the quote and what is behind it. -/
theorem takeWhile_quote (closed : c ∈ rest) :
    rest = rest.takeWhile (· ≠ c) ++ c :: (rest.dropWhile (· ≠ c)).tail := by
  obtain ⟨body, behind, rfl, absent⟩ := List.eq_append_cons_of_mem closed
  have other : ∀ d ∈ body, decide (d ≠ c) = true := by
    intro d isMember
    exact decide_eq_true fun same => absent (same ▸ isMember)
  rw [List.takeWhile_append_of_pos other, List.dropWhile_append_of_pos other]
  simp

/-- The tokens hold every character of the condition in its order. -/
theorem text_tokens (cs : List Char) : text (tokens cs) = cs := by
  fun_induction tokens cs with
  | case1 => rfl
  | case2 c rest quote isQuote closed ih =>
    rw [text_cons, ih, Token.chars, Quote.ofChar?_eq_some isQuote]
    simpa using (takeWhile_quote closed).symm
  | case3 c rest quote isQuote unclosed =>
    rw [text_singleton, Token.chars, Quote.ofChar?_eq_some isQuote]
  | case4 c rest noQuote kind isOperator ih =>
    obtain ⟨first, second⟩ := Operator.ofStart?_eq_some isOperator
    rw [text_cons, ih, Token.chars, first]
    simpa using second.symm
  | case5 c rest noQuote noOperator ih =>
    rw [text_cons, ih, Token.chars, List.singleton_append]

/-- Trimming leaves every literal whole, and all that stands between it and the other end. -/
theorem trim_text_literal (quote : Quote) (body : List Char) :
    Text.trim (text (ts ++ .literal quote body :: us)) =
      (text ts).dropWhile Text.isBlank ++ (Token.literal quote body).chars ++
        Text.trimEndWhile Text.isBlank (text us) := by
  rw [text_append, text_cons, ← List.append_assoc]
  exact Text.trim_around quote.isBlank_char quote.isBlank_char

end JobFlow.Expression
