import DomainModel.Proofs.Text.Pieces
/-!
# Texts that tell what they are written from

A written part that is followed by more text tells what it was written from if it can be told where
the part ends. What may follow is bounded by the first character of the text that follows. Parts in
a row, and parts with a separator between them, tell all of them in order.
-/
namespace DomainModel

/-- The text is empty or starts with one of these characters. -/
def Starts (p : Char → Bool) (cs : List Char) : Prop := ∀ c, cs.head? = some c → p c = true

/-- The text starts with one of these characters. -/
def Opens (p : Char → Bool) (cs : List Char) : Prop := ∃ c rest, cs = c :: rest ∧ p c = true

section Starts
variable {p q : Char → Bool} {cs ds : List Char}

theorem starts_nil : Starts p [] := by
  rintro _ ⟨⟩

theorem starts_cons {c : Char} (h : p c = true) : Starts p (c :: cs) := by
  rintro _ ⟨⟩
  exact h

theorem Starts.imp (h : Starts p cs) (hpq : ∀ c, p c = true → q c = true) : Starts q cs :=
  fun c hc => hpq c (h c hc)

theorem Starts.append (h : Starts p cs) (h' : Starts p ds) : Starts p (cs ++ ds) := by
  cases cs with
  | nil => exact h'
  | cons c rest => exact starts_cons (h c rfl)

theorem Opens.imp (h : Opens p cs) (hpq : ∀ c, p c = true → q c = true) : Opens q cs := by
  obtain ⟨c, rest, rfl, hc⟩ := h
  exact ⟨c, rest, rfl, hpq c hc⟩

theorem Opens.append (h : Opens p cs) (ds : List Char) : Opens p (cs ++ ds) := by
  obtain ⟨c, rest, rfl, hc⟩ := h
  exact ⟨c, rest ++ ds, rfl, hc⟩

theorem opens_append {s : String} (h : s.toList.head?.any p = true) (ds : List Char) :
    Opens p (s.toList ++ ds) := by
  cases hs : s.toList with
  | nil => simp [hs] at h
  | cons c rest => exact ⟨c, rest ++ ds, rfl, by simpa [hs] using h⟩

theorem Opens.starts (h : Opens p cs) : Starts p cs := by
  obtain ⟨c, rest, rfl, hc⟩ := h
  exact starts_cons hc

theorem Opens.ne (h : Opens p cs) (h' : Starts q ds) (hapart : ∀ c, p c = true → q c = false) :
    cs ≠ ds := by
  rintro rfl
  obtain ⟨c, rest, rfl, hc⟩ := h
  exact Bool.false_ne_true ((hapart c hc).symm.trans (h' c rfl))

theorem append_ne_append {a b : String} {c d : Char} (ha : a.toList.head? = some c)
    (hb : b.toList.head? = some d) (hcd : c ≠ d) (r s : List Char) :
    a.toList ++ r ≠ b.toList ++ s := by
  intro h
  have hheads := congrArg List.head? h
  rw [List.head?_append, List.head?_append, ha, hb] at hheads
  exact hcd (Option.some.inj hheads)

theorem of_beq {c : Char} {b : Bool} (h : p c = b) (x : Char) (hx : (x == c) = true) : p x = b :=
  beq_iff_eq.mp hx ▸ h

theorem of_beq_or_beq {c d : Char} {b : Bool} (hc : p c = b) (hd : p d = b) (x : Char)
    (hx : (x == c || x == d) = true) : p x = b :=
  (Bool.or_eq_true_iff.mp hx).elim (of_beq hc x) (of_beq hd x)

end Starts

/-- Where texts that start with one of the characters of `next` follow, the text that `write` makes
tells `key`, and where it ends. -/
def Tells {α β : Type} (P : α → Prop) (next : Char → Bool) (write : α → String) (key : α → β) :
    Prop :=
  ∀ ⦃a b : α⦄ ⦃r s : List Char⦄, P a → P b → Starts next r → Starts next s →
    (write a).toList ++ r = (write b).toList ++ s → key a = key b ∧ r = s

theorem Tells.mono {α β : Type} {P Q : α → Prop} {next next' : Char → Bool} {write : α → String}
    {key : α → β} (h : Tells P next write key) (hP : ∀ a, Q a → P a)
    (hnext : ∀ c, next' c = true → next c = true) : Tells Q next' write key :=
  fun a b _ _ ha hb hr hs heq => h (hP a ha) (hP b hb) (hr.imp hnext) (hs.imp hnext) heq

theorem Tells.sum {α α' β β' : Type} {P : α → Prop} {Q : α' → Prop} {next : Char → Bool}
    {write : α → String} {write' : α' → String} {key : α → β} {key' : α' → β'}
    (h : Tells P next write key) (h' : Tells Q next write' key')
    (hapart : ∀ a b r s, P a → Q b → (write a).toList ++ r ≠ (write' b).toList ++ s) :
    Tells (Sum.elim P Q) next (Sum.elim write write') (Sum.map key key') := by
  rintro (a | a) (b | b) r s ha hb hr hs heq
  · obtain ⟨hkey, hrest⟩ := h ha hb hr hs heq
    exact ⟨congrArg Sum.inl hkey, hrest⟩
  · exact absurd heq (hapart a b r s ha hb)
  · exact absurd heq.symm (hapart b a s r hb ha)
  · obtain ⟨hkey, hrest⟩ := h' ha hb hr hs heq
    exact ⟨congrArg Sum.inr hkey, hrest⟩

/-- A part that may be missing is told where no text of the part goes on as one without it. -/
theorem Tells.option {α β : Type} {P : α → Prop} {next : Char → Bool} {write : Option α → String}
    {key : α → β} (h : Tells P next (fun a => write (some a)) key)
    (hapart : ∀ a r s, P a → Starts next s →
      (write (some a)).toList ++ r ≠ (write none).toList ++ s) :
    Tells (fun o => ∀ a ∈ o, P a) next write (Option.map key) := by
  rintro (_ | a) (_ | b) r s ha hb hr hs heq
  · exact ⟨rfl, List.append_cancel_left heq⟩
  · exact absurd heq.symm (hapart b s r (hb b rfl) hr)
  · exact absurd heq (hapart a r s (ha a rfl) hs)
  · obtain ⟨hkey, hrest⟩ := h (ha a rfl) (hb b rfl) hr hs heq
    exact ⟨congrArg some hkey, hrest⟩

theorem Tells.inj {α β : Type} {P : α → Prop} {next : Char → Bool} {write : α → String}
    {key : α → β} (h : Tells P next write key) {a b : α} (ha : P a) (hb : P b)
    (heq : write a = write b) : key a = key b :=
  (h ha hb starts_nil starts_nil (by rw [heq])).1

/-- A text whose characters are of one kind ends where the next character is of another. -/
theorem span_inj {p : Char → Bool} {a b r s : List Char} (ha : ∀ c ∈ a, p c = true)
    (hb : ∀ c ∈ b, p c = true) (hr : Starts (fun c => !p c) r) (hs : Starts (fun c => !p c) s)
    (h : a ++ r = b ++ s) : a = b ∧ r = s := by
  have hstop : ∀ {x : Char} {xs t : List Char}, p x = true → Starts (fun c => !p c) t →
      x :: xs ≠ t :=
    fun {x xs t} hx ht => Opens.ne ⟨x, xs, rfl, hx⟩ ht (by simp)
  induction a generalizing b with
  | nil =>
    cases b with
    | nil => exact ⟨rfl, h⟩
    | cons y ys => exact absurd h.symm (hstop (hb y List.mem_cons_self) hr)
  | cons x xs ih =>
    cases b with
    | nil => exact absurd h (hstop (ha x List.mem_cons_self) hs)
    | cons y ys =>
      obtain ⟨rfl, hrest⟩ := List.cons.inj h
      obtain ⟨rfl, htail⟩ := ih (fun c hc => ha c (List.mem_cons_of_mem x hc))
        (fun c hc => hb c (List.mem_cons_of_mem x hc)) hrest
      exact ⟨rfl, htail⟩

/-- Every character of the text is of this kind. -/
def Spans (p : Char → Bool) (s : String) : Prop := ∀ c ∈ s.toList, p c = true

instance (p : Char → Bool) (s : String) : Decidable (Spans p s) :=
  decidable_of_iff (s.toList.all p = true) List.all_eq_true

theorem tells_span (p : Char → Bool) : Tells (Spans p) (fun c => !p c) id id := by
  intro a b r s ha hb hr hs h
  obtain ⟨hab, hrest⟩ := span_inj ha hb hr hs h
  exact ⟨String.toList_inj.mp hab, hrest⟩

theorem concat_append (l l' : List String) : concat (l ++ l') = concat l ++ concat l' := by
  induction l with
  | nil => simp [concat]
  | cons s rest ih => rw [List.cons_append, concat, concat, ih, String.append_assoc]

theorem starts_concat {p : Char → Bool} {l : List String} (h : ∀ s ∈ l, Opens p s.toList) :
    Starts p (concat l).toList := by
  cases l with
  | nil => exact starts_nil
  | cons s rest =>
    rw [concat, String.toList_append]
    exact ((h s List.mem_cons_self).append _).starts

section Lists
variable {α β : Type} {P : α → Prop} {next first last : Char → Bool} {write : α → String}
  {key : α → β}

/-- Parts in a row tell all of them, where the end is told from a further part. -/
theorem Tells.concat (h : Tells P next write key)
    (hfirst : ∀ a, P a → Opens first (write a).toList)
    (hnext : ∀ c, first c = true ∨ last c = true → next c = true)
    (hapart : ∀ c, first c = true → last c = false) :
    Tells (fun l : List α => ∀ a ∈ l, P a) last (fun l => concat (l.map write))
      (List.map key) := by
  have hfollow : ∀ {l : List α} {r : List Char}, (∀ a ∈ l, P a) → Starts last r →
      Starts next ((DomainModel.concat (l.map write)).toList ++ r) := by
    intro l r hl hr
    cases l with
    | nil => exact hr.imp fun c hc => hnext c (.inr hc)
    | cons a rest =>
      have hopens := hfirst a (hl a List.mem_cons_self)
      rw [List.map_cons, DomainModel.concat, String.toList_append, List.append_assoc]
      exact ((hopens.append _).imp fun c hc => hnext c (.inl hc)).starts
  have hend : ∀ {a : α} {t r : List Char}, P a → Starts last r → (write a).toList ++ t ≠ r :=
    fun ha hr => ((hfirst _ ha).append _).ne hr hapart
  intro l l' r s hl hl' hr hs heq
  induction l generalizing l' with
  | nil =>
    cases l' with
    | nil => exact ⟨rfl, heq⟩
    | cons b rest =>
      simp only [List.map_cons, DomainModel.concat, String.toList_append, List.append_assoc] at heq
      exact absurd heq.symm (hend (hl' b List.mem_cons_self) hr)
  | cons a rest ih =>
    obtain ⟨ha, hrest⟩ := List.forall_mem_cons.mp hl
    cases l' with
    | nil =>
      simp only [List.map_cons, DomainModel.concat, String.toList_append, List.append_assoc] at heq
      exact absurd heq (hend ha hs)
    | cons b rest' =>
      obtain ⟨hb, hrest'⟩ := List.forall_mem_cons.mp hl'
      simp only [List.map_cons, DomainModel.concat, String.toList_append, List.append_assoc] at heq
      obtain ⟨hkey, heq⟩ := h ha hb (hfollow hrest hr) (hfollow hrest' hs) heq
      obtain ⟨hkeys, heq⟩ := ih hrest hrest' heq
      exact ⟨by rw [List.map_cons, List.map_cons, hkey, hkeys], heq⟩

theorem joinWith_cons (sep s : String) (l : List String) :
    joinWith sep (s :: l) = s ++ concat (l.map (sep ++ ·)) := by
  induction l generalizing s with
  | nil => simp [joinWith, concat]
  | cons t rest ih =>
    rw [joinWith, ih, List.map_cons, concat, String.append_assoc, String.append_assoc]

theorem Tells.joined (h : Tells P next write key) {sep : String}
    (hfirst : ∀ a, P a → Opens first (write a).toList) {c : Char} {cs : List Char}
    (hsep : sep.toList = c :: cs) (hc : next c = true) (hclast : last c = false)
    (hnext : ∀ c, last c = true → next c = true) (hapart : ∀ c, first c = true → last c = false) :
    Tells (fun l : List α => ∀ a ∈ l, P a) last (fun l => joinWith sep (l.map write))
      (List.map key) := by
  have hseparated : Tells P next (fun a => sep ++ write a) key := by
    intro a b r s ha hb hr hs heq
    simp only [String.toList_append, List.append_assoc] at heq
    exact h ha hb hr hs (List.append_cancel_left heq)
  have hopens : ∀ a, P a → Opens (fun d => d == c) (sep ++ write a).toList :=
    fun a _ => ⟨c, cs ++ (write a).toList, by simp [hsep], by simp⟩
  have hrow : Tells (fun l : List α => ∀ a ∈ l, P a) last
      (fun l => DomainModel.concat (l.map fun a => sep ++ write a)) (List.map key) := by
    refine hseparated.concat hopens ?_ (of_beq hclast)
    rintro d (hd | hd)
    · exact of_beq hc d hd
    · exact hnext d hd
  have hend : ∀ {a : α} {t r : List Char}, P a → Starts last r → (write a).toList ++ t ≠ r :=
    fun ha hr => ((hfirst _ ha).append _).ne hr hapart
  have hfollow : ∀ {l : List α} {r : List Char}, Starts last r →
      Starts next ((DomainModel.concat (l.map fun a => sep ++ write a)).toList ++ r) := by
    intro l r hr
    cases l with
    | nil => exact hr.imp hnext
    | cons a rest =>
      simp only [List.map_cons, DomainModel.concat, String.toList_append, List.append_assoc, hsep]
      exact starts_cons hc
  have hjoined : ∀ (a : α) (l : List α) (r : List Char),
      (joinWith sep ((a :: l).map write)).toList ++ r =
        (write a).toList ++ ((DomainModel.concat (l.map fun a => sep ++ write a)).toList ++ r) := by
    intro a l r
    rw [List.map_cons, joinWith_cons, List.map_map, String.toList_append, List.append_assoc]
    rfl
  intro l l' r s hl hl' hr hs heq
  cases l with
  | nil =>
    cases l' with
    | nil => exact ⟨rfl, heq⟩
    | cons b rest =>
      rw [hjoined] at heq
      exact absurd heq.symm (hend (hl' b List.mem_cons_self) hr)
  | cons a rest =>
    obtain ⟨ha, hrest⟩ := List.forall_mem_cons.mp hl
    cases l' with
    | nil =>
      rw [hjoined] at heq
      exact absurd heq (hend ha hs)
    | cons b rest' =>
      obtain ⟨hb, hrest'⟩ := List.forall_mem_cons.mp hl'
      rw [hjoined, hjoined] at heq
      obtain ⟨hkey, heq⟩ := h ha hb (hfollow hr) (hfollow hs) heq
      obtain ⟨hkeys, heq⟩ := hrow hrest hrest' hr hs heq
      exact ⟨by rw [List.map_cons, List.map_cons, hkey, hkeys], heq⟩

theorem Tells.joinedWords {P : String → Prop} (h : Tells P next id id) {sep : String}
    (hfirst : ∀ s, P s → Opens first s.toList) {c : Char} {cs : List Char}
    (hsep : sep.toList = c :: cs) (hc : next c = true) (hclast : last c = false)
    (hnext : ∀ c, last c = true → next c = true) (hapart : ∀ c, first c = true → last c = false) :
    Tells (fun l : List String => ∀ s ∈ l, P s) last (joinWith sep) id := by
  have hjoined := h.joined hfirst hsep hc hclast hnext hapart
  simpa only [List.map_id_fun, id] using hjoined

/-- A text of parts that is left out where there are none tells them all. -/
theorem Tells.unlessEmpty {write : List α → String}
    (h : Tells (fun l : List α => l ≠ [] ∧ ∀ a ∈ l, P a) next write (List.map key))
    (hfirst : ∀ l, Opens first (write l).toList) (hapart : ∀ c, first c = true → next c = false) :
    Tells (fun l : List α => ∀ a ∈ l, P a) next (fun l => if l.isEmpty then "" else write l)
      (List.map key) := by
  have hend : ∀ {l : List α} {t r : List Char}, Starts next r → (write l).toList ++ t ≠ r :=
    fun {l t r} hr => ((hfirst l).append t).ne hr hapart
  rintro (_ | ⟨a, rest⟩) (_ | ⟨b, rest'⟩) r s hl hl' hr hs heq
  · exact ⟨rfl, heq⟩
  · exact absurd heq.symm (hend hr)
  · exact absurd heq (hend hs)
  · exact h ⟨List.cons_ne_nil a rest, hl⟩ ⟨List.cons_ne_nil b rest', hl'⟩ hr hs heq

end Lists
end DomainModel
