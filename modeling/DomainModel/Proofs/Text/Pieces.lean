import DomainModel.Text.Blank
import DomainModel.Text.Lines
/-!
# Pieces of texts

How a text is cut at separators: in one way at the first of them, and into the texts that were
joined if these hold none. What neither starts nor ends with a blank is not trimmed.
-/
namespace DomainModel

theorem cut_inj {sep : Char} {a b c d : List Char} (ha : sep ∉ a) (hb : sep ∉ b)
    (h : a ++ sep :: c = b ++ sep :: d) : a = b ∧ c = d := by
  induction a generalizing b with
  | nil =>
    cases b with
    | nil => simpa using h
    | cons y ys =>
      have hy : sep = y := by simpa using (List.cons.inj h).1
      exact absurd (hy ▸ List.mem_cons_self) hb
  | cons x xs ih =>
    cases b with
    | nil =>
      have hx : x = sep := by simpa using (List.cons.inj h).1
      exact absurd (hx ▸ List.mem_cons_self) ha
    | cons y ys =>
      obtain ⟨hxy, hrest⟩ := List.cons.inj h
      have htail := ih (fun hm => ha (List.mem_cons_of_mem x hm))
        (fun hm => hb (List.mem_cons_of_mem y hm)) hrest
      exact ⟨by rw [hxy, htail.1], htail.2⟩

theorem joinWith_eq_intercalate (sep : String) (l : List String) :
    joinWith sep l = sep.intercalate l := by
  induction l using joinWith.induct with
  | case1 => simp [joinWith]
  | case2 s => simp [joinWith]
  | case3 s t rest ih => rw [joinWith, ih, String.intercalate_cons_cons]

theorem piecesBetween_eq_splitOn (sep : Char) (cs : List Char) :
    piecesBetween sep cs = cs.splitOn sep := by
  rw [List.splitOn_eq_splitOnP]
  induction cs with
  | nil => rfl
  | cons c rest ih =>
    rw [piecesBetween, ih, List.splitOnP_cons_eq_if_modifyHead]
    by_cases hc : c = sep
    · simp [hc]
    · rw [if_neg hc, if_neg (by simpa using hc)]
      obtain ⟨piece, pieces, hpieces⟩ :=
        List.exists_cons_of_ne_nil (List.splitOnP_ne_nil (· == sep) rest)
      rw [hpieces]
      rfl

theorem piecesBetween_ne_nil (sep : Char) (cs : List Char) : piecesBetween sep cs ≠ [] :=
  piecesBetween_eq_splitOn sep cs ▸ List.splitOn_ne_nil sep cs

theorem piecesBetween_single {sep : Char} {cs : List Char} (h : sep ∉ cs) :
    piecesBetween sep cs = [cs] := by
  induction cs with
  | nil => rfl
  | cons c rest ih =>
    have hc : c ≠ sep := fun hc => h (hc ▸ List.mem_cons_self)
    have hrest := ih fun hm => h (List.mem_cons_of_mem c hm)
    simp [piecesBetween, hc, hrest]

theorem piecesBetween_append (sep : Char) (before after : List Char) :
    piecesBetween sep (before ++ sep :: after) =
      piecesBetween sep before ++ piecesBetween sep after := by
  induction before with
  | nil => simp [piecesBetween]
  | cons c rest ih =>
    by_cases hc : c = sep
    · simp [piecesBetween, hc, ih]
    · obtain ⟨piece, pieces, hpieces⟩ :=
        List.exists_cons_of_ne_nil (piecesBetween_ne_nil sep rest)
      simp [piecesBetween, hc, ih, hpieces]

theorem separator_notMem_piece {sep : Char} {cs piece : List Char}
    (h : piece ∈ piecesBetween sep cs) : sep ∉ piece := by
  induction cs generalizing piece with
  | nil => simp_all [piecesBetween]
  | cons c rest ih =>
    obtain ⟨first, pieces, hpieces⟩ :=
      List.exists_cons_of_ne_nil (piecesBetween_ne_nil sep rest)
    rw [hpieces] at ih
    by_cases hc : c = sep
    · rw [piecesBetween, if_pos hc, hpieces] at h
      rcases List.mem_cons.mp h with rfl | h
      · simp
      · exact ih h
    · rw [piecesBetween, if_neg hc, hpieces] at h
      rcases List.mem_cons.mp h with rfl | h
      · simpa [Ne.symm hc] using ih List.mem_cons_self
      · exact ih (List.mem_cons_of_mem first h)

theorem piecesBetween_joinWith {sep : Char} {parts : List String} (hparts : parts ≠ [])
    (h : ∀ s ∈ parts, sep ∉ s.toList) :
    piecesBetween sep (joinWith (String.singleton sep) parts).toList =
      parts.map String.toList := by
  rw [piecesBetween_eq_splitOn, joinWith_eq_intercalate, String.toList_intercalate,
    String.toList_singleton]
  exact List.splitOn_intercalate sep (by simpa using h) (by simpa using hparts)

theorem dropTrailing_keep {p : Char → Bool} {cs : List Char}
    (h : ∀ c, cs.getLast? = some c → p c = false) : dropTrailing p cs = cs := by
  have hrev : cs.reverse.dropWhile p = cs.reverse := by
    cases hcs : cs.reverse with
    | nil => rfl
    | cons c rest =>
      have hlast : cs.getLast? = some c := by rw [← List.head?_reverse, hcs]; rfl
      simp [h c hlast]
  rw [dropTrailing, hrev, List.reverse_reverse]

theorem trimChars_keep {cs : List Char} (hfirst : ∀ c, cs.head? = some c → isBlank c = false)
    (hlast : ∀ c, cs.getLast? = some c → isBlank c = false) : trimChars cs = cs := by
  have hfront : cs.dropWhile isBlank = cs := by
    cases cs with
    | nil => rfl
    | cons c rest => simp [hfirst c rfl]
  rw [trimChars, hfront, dropTrailing_keep hlast]

end DomainModel
