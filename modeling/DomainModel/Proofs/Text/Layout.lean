import DomainModel.Proofs.Text.Telling
/-!
# Comment blocks and indentation

A text whose lines are separated by line feeds alone is known from its lines, from its comment block
and from its indentation. In a block in braces the indentation tells where the block ends.
-/
namespace DomainModel

/-- Lines end with line feeds alone, and the last line is not ended. -/
def Lined (s : String) : Prop := '\r' ∉ s.toList ∧ s.toList.getLast? ≠ some '\n'

instance (s : String) : Decidable (Lined s) :=
  inferInstanceAs (Decidable ('\r' ∉ s.toList ∧ s.toList.getLast? ≠ some '\n'))

/-- The text with `margin` after each line feed. -/
def withMargin (margin cs : List Char) : List Char :=
  cs.flatMap fun c => if c = '\n' then '\n' :: margin else [c]

theorem lineChars_ne_nil {cs : List Char} (h : cs ≠ []) : lineChars cs ≠ [] := by
  cases cs using lineChars.fun_cases <;> simp_all [lineChars]

theorem mem_lineChars {cs line : List Char} (h : line ∈ lineChars cs) :
    '\n' ∉ line ∧ ∀ c ∈ line, c ∈ cs := by
  induction cs using lineChars.induct generalizing line with
  | case1 => simp [lineChars] at h
  | case2 rest ih =>
    rcases List.mem_cons.mp h with rfl | h
    · simp
    · exact ⟨(ih h).1, fun c hc => List.mem_cons_of_mem _ ((ih h).2 c hc)⟩
  | case3 rest ih =>
    rcases List.mem_cons.mp h with rfl | h
    · simp
    · have hrest := ih h
      exact ⟨hrest.1,
        fun c hc => List.mem_cons_of_mem _ (List.mem_cons_of_mem _ (hrest.2 c hc))⟩
  | case4 c rest hc hcr hnil _ =>
    rw [lineChars, hnil] at h
    · obtain rfl := List.mem_singleton.mp h
      have hfeed : c ≠ '\n' := hc
      simp [hfeed.symm]
    · exact hc
    · exact hcr
  | case5 c rest hc hcr line₁ lines hlines ih =>
    rw [lineChars, hlines] at h
    · rcases List.mem_cons.mp h with rfl | h
      · have hfirst := ih (by rw [hlines]; exact List.mem_cons_self)
        rw [List.mem_cons, not_or, List.forall_mem_cons]
        exact ⟨⟨fun heq => hc heq.symm, hfirst.1⟩, List.mem_cons_self,
          fun d hd => List.mem_cons_of_mem c (hfirst.2 d hd)⟩
      · have hlater := ih (by rw [hlines]; exact List.mem_cons_of_mem _ h)
        exact ⟨hlater.1, fun d hd => List.mem_cons_of_mem c (hlater.2 d hd)⟩
    · exact hc
    · exact hcr

private theorem joinWith_lineChars (margin : List Char) {cs : List Char} (hne : cs ≠ [])
    (hreturn : '\r' ∉ cs) (hlast : cs.getLast? ≠ some '\n') :
    (joinWith "\n" ((lineChars cs).map fun line => String.ofList (margin ++ line))).toList =
      margin ++ withMargin margin cs := by
  induction cs using lineChars.induct with
  | case1 => exact absurd rfl hne
  | case2 rest ih =>
    have hrest : rest ≠ [] := by
      rintro rfl
      exact hlast rfl
    obtain ⟨line, lines, hlines⟩ := List.exists_cons_of_ne_nil (lineChars_ne_nil hrest)
    have hjoined := ih hrest (fun h => hreturn (List.mem_cons_of_mem _ h)) (by
      rwa [List.getLast?_cons_of_ne_nil hrest] at hlast)
    rw [hlines, List.map_cons] at hjoined
    rw [lineChars, hlines, List.map_cons, List.map_cons, joinWith, String.toList_append,
      String.toList_append, hjoined]
    simp [withMargin]
  | case3 rest => simp at hreturn
  | case4 c rest hc hcr hnil _ =>
    have hnew : c ≠ '\n' := hc
    cases rest with
    | nil =>
      rw [lineChars, hnil]
      · simp [joinWith, withMargin, hnew]
      · exact hc
      · exact hcr
    | cons d rest => exact absurd hnil (lineChars_ne_nil (List.cons_ne_nil d rest))
  | case5 c rest hc hcr line lines hlines ih =>
    have hrest : rest ≠ [] := by
      rintro rfl
      simp [lineChars] at hlines
    have hjoined := ih hrest (fun h => hreturn (List.mem_cons_of_mem _ h)) (by
      rwa [List.getLast?_cons_of_ne_nil hrest] at hlast)
    rw [hlines, List.map_cons, joinWith_cons, String.toList_append, String.toList_ofList,
      List.append_assoc] at hjoined
    have htail := List.append_cancel_left hjoined
    rw [lineChars, hlines]
    · have hc : c ≠ '\n' := hc
      have hmargin : withMargin margin (c :: rest) = c :: withMargin margin rest := by
        simp [withMargin, hc]
      rw [List.map_cons, joinWith_cons, String.toList_append, String.toList_ofList, hmargin,
        ← htail]
      simp
    · exact hc
    · exact hcr

theorem joinWith_lines {s : String} (h : Lined s) : joinWith "\n" (lines s) = s := by
  by_cases hs : s = ""
  · subst hs
    rfl
  · have hne : s.toList ≠ [] := by simpa using hs
    have hjoined := joinWith_lineChars [] hne h.1 h.2
    have hbare : withMargin [] s.toList = s.toList := by
      have hchar : ∀ c : Char, (if c = '\n' then ['\n'] else [c]) = [c] := by
        intro c
        split
        · next hc => rw [hc]
        · rfl
      simp [withMargin, hchar]
    rw [hbare] at hjoined
    exact String.toList_inj.mp hjoined

theorem indented_toList {s : String} (h : Lined s) (hs : s ≠ "") :
    (indented s).toList = ' ' :: ' ' :: withMargin [' ', ' '] s.toList := by
  have hne : s.toList ≠ [] := by simpa using hs
  have hmargin : ∀ line : List Char,
      "  " ++ String.ofList line = String.ofList ([' ', ' '] ++ line) := by
    intro line
    apply String.toList_inj.mp
    simp
  rw [indented, lines, List.map_map]
  simp only [Function.comp_def, hmargin]
  exact joinWith_lineChars [' ', ' '] hne h.1 h.2

section Comments

private theorem commentBlock_eq (comment : String) :
    commentBlock comment =
      "/**\n *" ++ concat ((lines comment).map fun line => " " ++ line ++ "\n *") ++ "/\n" := by
  have hshift : ∀ l : List String,
      concat (l.map fun line => " * " ++ line ++ "\n") ++ " */\n" =
        " *" ++ concat (l.map fun line => " " ++ line ++ "\n *") ++ "/\n" := by
    intro l
    induction l with
    | nil => decide
    | cons line rest ih =>
      apply String.toList_inj.mp
      have ih := congrArg String.toList ih
      simp only [List.map_cons, concat, String.toList_append, List.append_assoc] at ih ⊢
      rw [ih]
      simp
  rw [commentBlock, String.append_assoc, hshift]
  apply String.toList_inj.mp
  simp

private theorem tells_line :
    Tells (fun line => '\n' ∉ line.toList) (fun _ => true) (fun line => " " ++ line ++ "\n *")
      id := by
  intro a b r s ha hb _ _ h
  simp only [String.toList_append, List.append_assoc] at h
  obtain ⟨hline, h⟩ := cut_inj ha hb (List.append_cancel_left h)
  exact ⟨String.toList_inj.mp hline, List.append_cancel_left h⟩

theorem tells_commentBlock : Tells Lined (fun _ => true) commentBlock id := by
  intro a b r s ha hb _ _ h
  have hlines : Tells (fun l : List String => ∀ line ∈ l, '\n' ∉ line.toList) (fun c => c == '/')
      (fun l => concat (l.map fun line => " " ++ line ++ "\n *")) (List.map id) := by
    have hopens : ∀ line : String, '\n' ∉ line.toList →
        Opens (fun c => c == ' ') (" " ++ line ++ "\n *").toList := by
      intro line _
      rw [String.append_assoc, String.toList_append]
      exact opens_append rfl _
    exact tells_line.concat hopens (fun _ _ => rfl) (of_beq rfl)
  have hfeeds : ∀ c : String, ∀ line ∈ lines c, '\n' ∉ line.toList := by
    intro c line hline
    obtain ⟨chars, hchars, rfl⟩ := List.mem_map.mp hline
    rw [String.toList_ofList]
    exact (mem_lineChars hchars).1
  simp only [commentBlock_eq, String.toList_append, List.append_assoc] at h
  obtain ⟨hsame, h⟩ := hlines (hfeeds a) (hfeeds b) (opens_append rfl r).starts
    (opens_append rfl s).starts (List.append_cancel_left h)
  rw [List.map_id, List.map_id] at hsame
  refine ⟨?_, List.append_cancel_left h⟩
  rw [id, id, ← joinWith_lines ha, hsame, joinWith_lines hb]

theorem tells_optionalComment :
    Tells (fun comment => ∀ c ∈ comment, Lined c) (fun c => c != '/') optionalComment id := by
  have hblock : Tells Lined (fun c => c != '/') (fun c => optionalComment (some c)) id :=
    tells_commentBlock.mono (fun _ => id) fun _ _ => rfl
  have htells := hblock.option fun c r s _ hs => by
    simp only [optionalComment, commentBlock, String.toList_append, List.append_assoc]
    exact (opens_append (p := fun d => d == '/') rfl _).ne hs (of_beq rfl)
  rwa [Option.map_id] at htells

end Comments

section Blocks
variable {α β : Type} {P : α → Prop} {next : Char → Bool} {write : α → String} {key : α → β}

private theorem withMargin_cons (margin : List Char) (c : Char) (cs : List Char) :
    withMargin margin (c :: cs) =
      (if c = '\n' then '\n' :: margin else [c]) ++ withMargin margin cs :=
  List.flatMap_cons

private theorem withMargin_inj {x y r s : List Char}
    (h : withMargin [' ', ' '] x ++ '\n' :: '\x7d' :: r =
      withMargin [' ', ' '] y ++ '\n' :: '\x7d' :: s) : x = y ∧ r = s := by
  -- in front of a brace in the first column, the indentation ends
  have hend : ∀ {c : Char} {cs t u : List Char},
      withMargin [' ', ' '] (c :: cs) ++ t ≠ '\n' :: '\x7d' :: u := by
    intro c cs t u heq
    rw [withMargin_cons] at heq
    by_cases hc : c = '\n' <;> simp_all
  induction x generalizing y with
  | nil =>
    cases y with
    | nil => simpa [withMargin] using h
    | cons d ds => exact absurd h.symm hend
  | cons c cs ih =>
    cases y with
    | nil => exact absurd h hend
    | cons d ds =>
      rw [withMargin_cons, withMargin_cons, List.append_assoc, List.append_assoc] at h
      have hsame : c = d ∧ withMargin [' ', ' '] cs ++ '\n' :: '\x7d' :: r =
          withMargin [' ', ' '] ds ++ '\n' :: '\x7d' :: s := by
        by_cases hc : c = '\n'
        · by_cases hd : d = '\n'
          · simp_all
          · rw [if_pos hc, if_neg hd] at h
            exact absurd (List.cons.inj h).1.symm hd
        · by_cases hd : d = '\n'
          · rw [if_neg hc, if_pos hd] at h
            exact absurd (List.cons.inj h).1 hc
          · simp_all
      obtain ⟨rfl, hrest⟩ := hsame
      obtain ⟨rfl, htail⟩ := ih hrest
      exact ⟨rfl, htail⟩

private theorem joined_toList {texts : List String} (hne : texts ≠ [])
    (h : ∀ t ∈ texts, Lined t ∧ t ≠ "") :
    (joinWith ",\n" (texts.map indented)).toList =
      ' ' :: ' ' :: withMargin [' ', ' '] (joinWith ",\n" texts).toList := by
  have happend : ∀ x y : List Char, withMargin [' ', ' '] (x ++ y) =
      withMargin [' ', ' '] x ++ withMargin [' ', ' '] y := fun _ _ => List.flatMap_append
  have hrow : ∀ l : List String, (∀ t ∈ l, Lined t ∧ t ≠ "") →
      (concat ((l.map indented).map (",\n" ++ ·))).toList =
        withMargin [' ', ' '] (concat (l.map (",\n" ++ ·))).toList := by
    intro l hl
    induction l with
    | nil => rfl
    | cons t rest ih =>
      obtain ⟨⟨ht, hnew⟩, hrest⟩ := List.forall_mem_cons.mp hl
      have hseparator : withMargin [' ', ' '] ",\n".toList = ",\n  ".toList := by decide
      simp only [List.map_cons, concat, String.toList_append, happend, ih hrest,
        indented_toList ht hnew, hseparator]
      simp
  obtain ⟨t, rest, rfl⟩ := List.exists_cons_of_ne_nil hne
  obtain ⟨⟨ht, hnew⟩, hrest⟩ := List.forall_mem_cons.mp h
  rw [List.map_cons, joinWith_cons, joinWith_cons, String.toList_append, String.toList_append,
    happend, indented_toList ht hnew, hrow rest hrest]
  rfl

/-- Texts in braces, indented and with commas between them. -/
def bracedBlock (texts : List String) : String :=
  " \x7b\n" ++ joinWith ",\n" (texts.map indented) ++ "\n\x7d"

theorem opens_bracedBlock (texts : List String) :
    Opens (fun c => c == ' ') (bracedBlock texts).toList := by
  simp only [bracedBlock, String.toList_append, List.append_assoc]
  exact opens_append rfl _

/-- The parts in a block in braces are told, and where the block ends. -/
theorem Tells.block (h : Tells P next write key)
    (htext : ∀ a, P a → Lined (write a) ∧ write a ≠ "") (hnext : next ',' = true) :
    Tells (fun l : List α => l ≠ [] ∧ ∀ a ∈ l, P a) (fun _ => true)
      (fun l => bracedBlock (l.map write)) (List.map key) := by
  have hopens : ∀ a, P a → Opens (fun _ => true) (write a).toList := by
    intro a ha
    obtain ⟨c, rest, hc⟩ := List.exists_cons_of_ne_nil
      (fun hnil => (htext a ha).2 (String.toList_eq_nil_iff.mp hnil))
    exact ⟨c, rest, hc, rfl⟩
  have hjoined : Tells (fun l : List α => ∀ a ∈ l, P a) (fun _ => false)
      (fun l => joinWith ",\n" (l.map write)) (List.map key) :=
    h.joined hopens (show ",\n".toList = ',' :: ['\n'] by decide) hnext rfl
      (fun _ hc => absurd hc Bool.false_ne_true) fun _ _ => rfl
  have hbody : ∀ (l : List α) (r : List Char), l ≠ [] → (∀ a ∈ l, P a) →
      (bracedBlock (l.map write)).toList ++ r = " \x7b\n  ".toList ++
        (withMargin [' ', ' '] (joinWith ",\n" (l.map write)).toList ++ '\n' :: '\x7d' :: r) := by
    intro l r hne hl
    have htexts : ∀ t ∈ l.map write, Lined t ∧ t ≠ "" := by
      intro t ht
      obtain ⟨a, ha, rfl⟩ := List.mem_map.mp ht
      exact htext a (hl a ha)
    rw [bracedBlock, String.toList_append, String.toList_append,
      joined_toList (by simpa using hne) htexts]
    simp
  rintro l l' r s ⟨hne, hl⟩ ⟨hne', hl'⟩ - - heq
  rw [hbody l r hne hl, hbody l' s hne' hl'] at heq
  obtain ⟨hsame, hrest⟩ := withMargin_inj (List.append_cancel_left heq)
  exact ⟨hjoined.inj hl hl' (String.toList_inj.mp hsame), hrest⟩

end Blocks
end DomainModel
