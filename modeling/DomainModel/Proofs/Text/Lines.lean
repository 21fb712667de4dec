import DomainModel.Proofs.Text.Pieces
/-!
# Lines between line feeds

The lines of a text are the pieces between its line feeds. A carriage return at the end of a piece
belongs to the line feed after it, and an empty piece after the last line feed is no line.
-/
namespace DomainModel

theorem concat_eq_join (l : List String) : concat l = String.join l := by
  induction l with
  | nil => rfl
  | cons s rest ih => rw [concat, ih, String.join_cons]

/-- What a line feed ends, without a carriage return before it. -/
def endedLine (piece : List Char) : List Char :=
  if piece.getLast? = some '\r' then piece.dropLast else piece

/-- The lines of a text, cut at its line feeds. -/
def linesAtFeeds (s : String) : List String :=
  let pieces := s.toList.splitOn '\n'
  (pieces.dropLast.map endedLine ++ pieces.getLast?.toList.filter (· ≠ [])).map String.ofList

section Cutting
variable {c : Char} {cs rest : List Char}

private theorem lineChars_cons (hfeed : c ≠ '\n') (hreturn : c = '\r' → rest.head? ≠ some '\n') :
    lineChars (c :: rest) = (c :: (lineChars rest).head?.getD []) :: (lineChars rest).tail := by
  rw [lineChars]
  · cases lineChars rest <;> rfl
  · exact hfeed
  · rintro others rfl rfl
    exact hreturn rfl rfl

private theorem endedLine_cons (hne : rest ≠ []) : endedLine (c :: rest) = c :: endedLine rest := by
  unfold endedLine
  rw [List.getLast?_cons_of_ne_nil hne, List.dropLast_cons_of_ne_nil hne]
  split <;> rfl

private theorem lineChars_ended (h : '\n' ∉ cs) (rest : List Char) :
    lineChars (cs ++ '\n' :: rest) = endedLine cs :: lineChars rest := by
  induction cs with
  | nil => rfl
  | cons c others ih =>
    obtain ⟨hc, hothers⟩ := List.ne_and_not_mem_of_not_mem_cons h
    cases others with
    | nil =>
      by_cases hreturn : c = '\r'
      · subst hreturn
        rfl
      · rw [List.singleton_append, lineChars_cons hc.symm (absurd · hreturn)]
        simp [lineChars, endedLine, hreturn]
    | cons d others =>
      have hd : d ≠ '\n' := fun heq => hothers (heq ▸ List.mem_cons_self)
      rw [List.cons_append, lineChars_cons hc.symm (by simp [hd]), ih hothers,
        endedLine_cons (List.cons_ne_nil d others)]
      rfl

private theorem lineChars_unended (h : '\n' ∉ cs) : lineChars cs = [cs].filter (· ≠ []) := by
  induction cs with
  | nil => rfl
  | cons c rest ih =>
    obtain ⟨hc, hrest⟩ := List.ne_and_not_mem_of_not_mem_cons h
    have hnext : rest.head? ≠ some '\n' := fun heq => hrest (List.mem_of_head? heq)
    rw [lineChars_cons hc.symm fun _ => hnext, ih hrest]
    by_cases hnil : rest = [] <;> simp [hnil]

private theorem lineChars_intercalate {pieces : List (List Char)} (hne : pieces ≠ [])
    (h : ∀ piece ∈ pieces, '\n' ∉ piece) : lineChars (['\n'].intercalate pieces) =
      pieces.dropLast.map endedLine ++ pieces.getLast?.toList.filter (· ≠ []) := by
  induction pieces with
  | nil => exact absurd rfl hne
  | cons piece others ih =>
    obtain ⟨hpiece, hothers⟩ := List.forall_mem_cons.mp h
    cases others with
    | nil =>
      rw [List.intercalate_singleton, lineChars_unended hpiece]
      rfl
    | cons next others =>
      rw [List.intercalate_cons_cons, List.append_assoc, List.singleton_append,
        lineChars_ended hpiece, ih (List.cons_ne_nil next others) hothers]
      simp

end Cutting

theorem lines_eq_linesAtFeeds (s : String) : lines s = linesAtFeeds s := by
  have hpieces : ∀ piece ∈ s.toList.splitOn '\n', '\n' ∉ piece := by
    rw [← piecesBetween_eq_splitOn]
    exact fun piece => separator_notMem_piece
  have hlines := lineChars_intercalate (List.splitOn_ne_nil '\n' s.toList) hpieces
  rw [List.intercalate_splitOn] at hlines
  rw [lines, hlines, linesAtFeeds]

example : linesAtFeeds "one\r\n\ntwo\r" = ["one", "", "two\r"] := by decide

end DomainModel
