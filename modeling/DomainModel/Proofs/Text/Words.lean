import DomainModel.Proofs.Text.Identifiers
import DomainModel.Proofs.Text.Layout
/-!
# Words and the lines they stand in

An identifier is told where a character follows that identifiers do not have. A text that ends with
words in one line can be indented, whatever comments stand before them.
-/
namespace DomainModel

section Lines
variable {a b : String}

/-- The text has no line end. -/
def OneLine (s : String) : Prop := '\n' ∉ s.toList ∧ '\r' ∉ s.toList

instance (s : String) : Decidable (OneLine s) :=
  inferInstanceAs (Decidable ('\n' ∉ s.toList ∧ '\r' ∉ s.toList))

theorem OneLine.append (ha : OneLine a) (hb : OneLine b) : OneLine (a ++ b) := by
  rw [OneLine, String.toList_append, List.mem_append, List.mem_append, not_or, not_or]
  exact ⟨⟨ha.1, hb.1⟩, ha.2, hb.2⟩

theorem OneLine.concat {l : List String} (h : ∀ s ∈ l, OneLine s) : OneLine (concat l) := by
  induction l with
  | nil => exact (by decide : OneLine "")
  | cons s rest ih =>
    obtain ⟨hs, hrest⟩ := List.forall_mem_cons.mp h
    exact hs.append (ih hrest)

theorem Spans.oneLine {p : Char → Bool} (h : Spans p a) (hfeed : p '\n' = false)
    (hreturn : p '\r' = false) : OneLine a :=
  ⟨fun hc => Bool.false_ne_true (hfeed.symm.trans (h _ hc)),
    fun hc => Bool.false_ne_true (hreturn.symm.trans (h _ hc))⟩

theorem OneLine.lined_append (hb : OneLine b) (ha : '\r' ∉ a.toList) (hne : b ≠ "") :
    Lined (a ++ b) ∧ a ++ b ≠ "" := by
  have hchars : b.toList ≠ [] := by simpa using hne
  refine ⟨⟨?_, ?_⟩, by simp [hne]⟩
  · rw [String.toList_append, List.mem_append, not_or]
    exact ⟨ha, hb.2⟩
  · obtain ⟨c, hc⟩ := Option.isSome_iff_exists.mp (List.getLast?_isSome.mpr hchars)
    rw [String.toList_append, List.getLast?_append, hc]
    rintro ⟨⟩
    exact hb.1 (List.mem_of_getLast? hc)

theorem notMem_commentBlock {comment : String} (h : Lined comment) :
    '\r' ∉ (commentBlock comment).toList := by
  have hrows : ∀ l : List String, (∀ line ∈ l, '\r' ∉ line.toList) →
      '\r' ∉ (concat (l.map fun line => " * " ++ line ++ "\n")).toList := by
    intro l hl
    induction l with
    | nil => simp [concat]
    | cons line rest ih =>
      obtain ⟨hline, hrest⟩ := List.forall_mem_cons.mp hl
      simp [concat, hline, ih hrest]
  have hlines := hrows (lines comment) fun line hline => by
    obtain ⟨chars, hchars, rfl⟩ := List.mem_map.mp hline
    rw [String.toList_ofList]
    exact fun hc => h.1 ((mem_lineChars hchars).2 _ hc)
  simp [commentBlock, hlines]

theorem notMem_optionalComment {comment : Option String} (h : ∀ c ∈ comment, Lined c) :
    '\r' ∉ (optionalComment comment).toList := by
  cases comment with
  | none => simp [optionalComment]
  | some c => exact notMem_commentBlock (h c rfl)

end Lines

section Identifiers
variable {s : String}

theorem ne_of_isIdentifierChar {d : Char} (hd : isIdentifierChar d = false) (c : Char)
    (h : isIdentifierChar c = true) : (c != d) = true := by
  rw [bne_iff_ne]
  rintro rfl
  exact Bool.false_ne_true (hd.symm.trans h)

theorem spans_of_isIdentifier (h : isIdentifier s = true) : Spans isIdentifierChar s :=
  (isIdentifierFrom_chars h).2

theorem oneLine_of_isIdentifier (h : isIdentifier s = true) : OneLine s :=
  (spans_of_isIdentifier h).oneLine rfl rfl

theorem opens_of_isIdentifier (h : isIdentifier s = true) : Opens isIdentifierChar s.toList := by
  obtain ⟨c, cs, rfl, -, hall⟩ := exists_of_isIdentifierFrom h
  rw [String.toList_ofList]
  exact ⟨c, cs, rfl, hall c List.mem_cons_self⟩

theorem starts_of_isIdentifier {d : Char} (h : isIdentifier s = true)
    (hd : isIdentifierChar d = false) (r : List Char) :
    Starts (fun c => c != d) (s.toList ++ r) :=
  (((opens_of_isIdentifier h).append r).imp (ne_of_isIdentifierChar hd)).starts

theorem tells_identifier :
    Tells (fun s => isIdentifier s = true) (fun c => !isIdentifierChar c) id id :=
  (tells_span isIdentifierChar).mono (fun _ => spans_of_isIdentifier) fun _ => id

end Identifiers
end DomainModel
