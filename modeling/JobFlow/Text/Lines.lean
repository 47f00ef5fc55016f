/-!
Lines. Only the line feed ends a line, so a text of `n` line feeds has `n + 1` lines, the last of
them possibly empty.
-/

set_option autoImplicit false

namespace JobFlow.Text

/-- The pieces of `s` between the occurrences of `sep`. -/
def pieces (sep : Char) (s : String) : List String :=
  (s.toList.splitOn sep).map String.ofList

/-- The lines of a text, without their line feeds. -/
def lines (s : String) : List String :=
  pieces '\n' s

/-- Writes each line with a line feed after it. -/
def unlines (ls : List String) : String :=
  String.join (ls.map (· ++ "\n"))

def isMultiline (s : String) : Bool :=
  s.toList.contains '\n'

def indentBy (indent : String) (ls : List String) : List String :=
  ls.map (indent ++ ·)

/-- Lines put back around line feeds are the text they were cut from. -/
theorem intercalate_lines (s : String) : "\n".intercalate (lines s) = s := by
  apply String.toList_injective
  have h : String.toList ∘ String.ofList = id := by
    funext cs
    exact String.toList_ofList
  simp [lines, pieces, String.toList_intercalate, List.map_map, h]

theorem not_mem_of_mem_splitOn {sep : Char} {cs part : List Char} (h : part ∈ cs.splitOn sep) :
    sep ∉ part := by
  induction cs generalizing part with
  | nil =>
    rw [List.splitOn_nil, List.mem_singleton] at h
    exact h ▸ List.not_mem_nil
  | cons c cs ih =>
    rw [List.splitOn_cons_eq_if_modifyHead] at h
    split at h
    · rcases List.mem_cons.1 h with rfl | later
      · exact List.not_mem_nil
      · exact ih later
    · next other =>
      cases parts : cs.splitOn sep with
      | nil => exact absurd parts (List.splitOn_ne_nil sep cs)
      | cons first rest =>
        rw [parts, List.modifyHead_cons] at h
        rcases List.mem_cons.1 h with rfl | later
        · intro isMember
          rcases List.mem_cons.1 isMember with same | inFirst
          · exact other (beq_iff_eq.2 same.symm)
          · exact ih (parts ▸ List.mem_cons_self) inFirst
        · exact ih (parts ▸ List.mem_cons_of_mem first later)

/-- No piece holds the separator. -/
theorem not_mem_of_mem_pieces {sep : Char} {s piece : String} (h : piece ∈ pieces sep s) :
    sep ∉ piece.toList := by
  obtain ⟨part, isPart, rfl⟩ := List.mem_map.1 h
  rw [String.toList_ofList]
  exact not_mem_of_mem_splitOn isPart

section mark

variable {sep : Char} {mark : String}

/-- A separator between two texts leaves the pieces of each. -/
theorem pieces_append (isMark : mark.toList = [sep]) (s t : String) :
    pieces sep (s ++ mark ++ t) = pieces sep s ++ pieces sep t := by
  rw [pieces, String.toList_append, String.toList_append, isMark, List.append_assoc,
    List.singleton_append, List.splitOn_append_cons_self, List.map_append]
  rfl

/-- Texts without the separator are the pieces of what they are put together to. -/
theorem pieces_intercalate (isMark : mark.toList = [sep]) {ss : List String} (some : ss ≠ [])
    (whole : ∀ s ∈ ss, sep ∉ s.toList) : pieces sep (mark.intercalate ss) = ss := by
  have parts : (mark.intercalate ss).toList.splitOn sep = ss.map String.toList := by
    rw [String.toList_intercalate, isMark]
    exact List.splitOn_intercalate sep (List.forall_mem_map.2 whole) (by simpa using some)
  rw [pieces, parts, List.map_map]
  exact List.map_id'' (fun _ => String.ofList_toList) ss

end mark

theorem unlines_nil : unlines [] = "" := rfl

theorem unlines_cons (l : String) (ls : List String) :
    unlines (l :: ls) = l ++ "\n" ++ unlines ls := by
  simp [unlines]

theorem unlines_append (ls ms : List String) :
    unlines (ls ++ ms) = unlines ls ++ unlines ms := by
  simp [unlines]

end JobFlow.Text
