import DomainModel.Model.Basic
/-!
# Outcomes of operations in turn

A fold of operations that may fail keeps what every single one keeps, succeeds where every single
one does, and fails under a category under which all of them fail. Adding a part succeeds exactly
when the part has no problems.
-/
namespace DomainModel

namespace Outcome
variable {α β : Type} {f : β → α → Outcome β}

theorem bind_eq_ok {γ : Type} {x : Outcome α} {g : α → Outcome γ} {c : γ} :
    x >>= g = .ok c ↔ ∃ a, x = .ok a ∧ g a = .ok c := by
  cases x with
  | error e => simp [bind, Except.bind]
  | ok a => simp [bind, Except.bind]

theorem bind_eq_error {γ : Type} {x : Outcome α} {g : α → Outcome γ} {e : Failure} :
    x >>= g = .error e ↔ x = .error e ∨ ∃ a, x = .ok a ∧ g a = .error e := by
  cases x with
  | error e => simp [bind, Except.bind]
  | ok a => simp [bind, Except.bind]

theorem fails_iff {x : Outcome α} : (∃ e, x = .error e) ↔ ¬ ∃ a, x = .ok a := by
  cases x with
  | error e => simp
  | ok a => simp

theorem of_eq_error {P : Prop} {x : Outcome α} (h : (∃ a, x = .ok a) ↔ ¬ P) {e : Failure}
    (he : x = .error e) : P :=
  Classical.byContradiction fun hp => fails_iff.mp ⟨e, he⟩ (h.mpr hp)

theorem foldlM_cons_ok {a : α} {l : List α} {b c : β} :
    (a :: l).foldlM f b = .ok c ↔ ∃ b', f b a = .ok b' ∧ l.foldlM f b' = .ok c := by
  rw [List.foldlM_cons, bind_eq_ok]

theorem foldlM_keeps (P : β → Prop) {l : List α}
    (hstep : ∀ a ∈ l, ∀ b b', P b → f b a = .ok b' → P b') {b c : β} (hb : P b)
    (h : l.foldlM f b = .ok c) : P c := by
  induction l generalizing b with
  | nil =>
    have hbc : b = c := by simpa [pure, Except.pure] using h
    exact hbc ▸ hb
  | cons a rest ih =>
    obtain ⟨b', hb', hrest⟩ := foldlM_cons_ok.mp h
    exact ih (fun x hx => hstep x (List.mem_cons_of_mem a hx))
      (hstep a List.mem_cons_self b b' hb hb') hrest

/-- Where every operation rewrites one part of what it is given, all of them in turn rewrite this
part in turn. -/
theorem foldlM_rewrites {γ : Type} (part : γ → β) {g : γ → α → γ} {l : List α} {c : γ} {b : β}
    (h : l.foldlM f (part c) = .ok b)
    (hstep : ∀ a ∈ l, ∀ c b, f (part c) a = .ok b → b = part (g c a)) :
    b = part (l.foldl g c) := by
  induction l generalizing c with
  | nil => exact (Except.ok.inj h).symm
  | cons a rest ih =>
    obtain ⟨b', hb', hrest⟩ := foldlM_cons_ok.mp h
    obtain rfl := hstep a List.mem_cons_self c b' hb'
    exact ih hrest fun x hx => hstep x (List.mem_cons_of_mem a hx)

theorem foldlM_eq_error {l : List α} {b : β} {e : Failure} (h : l.foldlM f b = .error e) :
    ∃ a ∈ l, ∃ b', f b' a = .error e := by
  induction l generalizing b with
  | nil => cases h
  | cons a rest ih =>
    rw [List.foldlM_cons] at h
    cases ha : f b a with
    | error e' =>
      rw [ha] at h
      obtain rfl := Except.error.inj h
      exact ⟨a, List.mem_cons_self, b, ha⟩
    | ok b' =>
      rw [ha] at h
      obtain ⟨x, hx, b'', hb''⟩ := ih h
      exact ⟨x, List.mem_cons_of_mem a hx, b'', hb''⟩

/-- Where the success of an operation depends on what it is given and on what every operation keeps,
the operations succeed in turn exactly when every single one does. -/
theorem foldlM_succeeds_iff_of_keeps {P : α → Prop} {Q : β → Prop} {l : List α}
    (hstep : ∀ a ∈ l, ∀ b, Q b → ((∃ b', f b a = .ok b') ↔ P a))
    (hkeeps : ∀ a ∈ l, ∀ b b', Q b → f b a = .ok b' → Q b') {b : β} (hb : Q b) :
    (∃ c, l.foldlM f b = .ok c) ↔ ∀ a ∈ l, P a := by
  induction l generalizing b with
  | nil => exact ⟨fun _ => by simp, fun _ => ⟨b, rfl⟩⟩
  | cons a rest ih =>
    have hrest : ∀ {b'}, Q b' → ((∃ c, rest.foldlM f b' = .ok c) ↔ ∀ a ∈ rest, P a) :=
      ih (fun x hx => hstep x (List.mem_cons_of_mem a hx))
        (fun x hx => hkeeps x (List.mem_cons_of_mem a hx))
    rw [List.forall_mem_cons, ← hstep a List.mem_cons_self b hb]
    constructor
    · rintro ⟨c, hc⟩
      obtain ⟨b', hb', hc⟩ := foldlM_cons_ok.mp hc
      have hQ := hkeeps a List.mem_cons_self b b' hb hb'
      exact ⟨⟨b', hb'⟩, (hrest hQ).mp ⟨c, hc⟩⟩
    · rintro ⟨⟨b', hb'⟩, hall⟩
      have hQ := hkeeps a List.mem_cons_self b b' hb hb'
      obtain ⟨c, hc⟩ := (hrest hQ).mpr hall
      exact ⟨c, foldlM_cons_ok.mpr ⟨b', hb', hc⟩⟩

theorem foldlM_succeeds_iff {P : α → Prop} {l : List α}
    (hstep : ∀ a ∈ l, ∀ b, (∃ b', f b a = .ok b') ↔ P a) (b : β) :
    (∃ c, l.foldlM f b = .ok c) ↔ ∀ a ∈ l, P a :=
  foldlM_succeeds_iff_of_keeps (Q := fun _ => True) (fun a ha b _ => hstep a ha b)
    (fun _ _ _ _ _ _ => trivial) trivial

theorem foldlM_succeeds {l : List α} (hstep : ∀ a ∈ l, ∀ b, ∃ b', f b a = .ok b') (b : β) :
    ∃ c, l.foldlM f b = .ok c :=
  (foldlM_succeeds_iff (P := fun _ => True)
    (fun a ha b => iff_of_true (hstep a ha b) trivial) b).mpr fun _ _ => trivial

/-- Two runs over the same items agree where they succeed, if every two single operations do. -/
theorem foldlM_agree {g : β → α → Outcome β} {l : List α}
    (hstep : ∀ a b c c', f b a = .ok c → g b a = .ok c' → c = c') {b c c' : β}
    (hf : l.foldlM f b = .ok c) (hg : l.foldlM g b = .ok c') : c = c' := by
  induction l generalizing b with
  | nil => exact Except.ok.inj (hf.symm.trans hg)
  | cons a rest ih =>
    obtain ⟨b₁, hb₁, hf⟩ := foldlM_cons_ok.mp hf
    obtain ⟨b₂, hb₂, hg⟩ := foldlM_cons_ok.mp hg
    obtain rfl := hstep a b b₁ b₂ hb₁ hb₂
    exact ih hf hg

/-- `f` can be put off until after `g`: where `f` succeeds, `g` has the same outcome before it and
after it, and both orders give the same result. -/
structure Defers (f g : β → Outcome β) : Prop where
  ok : ∀ {b b' c}, f b = .ok b' → g b = .ok c → ∃ c', f c = .ok c' ∧ g b' = .ok c'
  error : ∀ {b b' e}, f b = .ok b' → g b = .error e → g b' = .error e

theorem Defers.foldlM_left {g : β → Outcome β} {l : List α}
    (h : ∀ a ∈ l, Defers (fun b => f b a) g) : Defers (fun b => l.foldlM f b) g := by
  induction l with
  | nil =>
    refine ⟨fun hb hc => ?_, fun hb he => ?_⟩
    · obtain rfl := Except.ok.inj hb
      exact ⟨_, rfl, hc⟩
    · obtain rfl := Except.ok.inj hb
      exact he
  | cons a rest ih =>
    have hfirst := h a List.mem_cons_self
    have hrest := ih fun x hx => h x (List.mem_cons_of_mem a hx)
    refine ⟨fun hb hc => ?_, fun hb he => ?_⟩
    · obtain ⟨b₁, hb₁, hb⟩ := foldlM_cons_ok.mp hb
      obtain ⟨c₁, hc₁, hg⟩ := hfirst.ok hb₁ hc
      obtain ⟨c', hc', hg'⟩ := hrest.ok hb hg
      exact ⟨c', foldlM_cons_ok.mpr ⟨c₁, hc₁, hc'⟩, hg'⟩
    · obtain ⟨b₁, hb₁, hb⟩ := foldlM_cons_ok.mp hb
      exact hrest.error hb (hfirst.error hb₁ he)

theorem Defers.foldlM_right {g : β → Outcome β} {l : List α}
    (h : ∀ a ∈ l, Defers g (fun b => f b a)) : Defers g (fun b => l.foldlM f b) := by
  induction l with
  | nil =>
    refine ⟨fun hb hc => ?_, fun hb he => ?_⟩
    · obtain rfl := Except.ok.inj hc
      exact ⟨_, hb, rfl⟩
    · cases he
  | cons a rest ih =>
    have hfirst := h a List.mem_cons_self
    have hrest := ih fun x hx => h x (List.mem_cons_of_mem a hx)
    refine ⟨fun hb hc => ?_, fun {b b' e} hb he => ?_⟩
    · obtain ⟨c₁, hc₁, hc⟩ := foldlM_cons_ok.mp hc
      obtain ⟨c₁', hg, hc₁'⟩ := hfirst.ok hb hc₁
      obtain ⟨c', hg', hc'⟩ := hrest.ok hg hc
      exact ⟨c', hg', foldlM_cons_ok.mpr ⟨c₁', hc₁', hc'⟩⟩
    · rw [List.foldlM_cons] at he ⊢
      cases ha : f b a with
      | error e' =>
        rw [ha] at he
        rw [hfirst.error hb ha]
        exact he
      | ok c₁ =>
        rw [ha] at he
        obtain ⟨c₁', hg, hc₁'⟩ := hfirst.ok hb ha
        rw [hc₁']
        exact hrest.error hg he

/-- Two runs in phases, one after the other, are one run that takes the phases of both in turn, if
whatever the first run does in a later phase can be put off until after the second in an earlier
one. -/
theorem foldlM_interleaved {phases : List (List α × List α)}
    (h : phases.Pairwise fun p q => ∀ y ∈ q.1, ∀ x ∈ p.2,
      Defers (fun b => f b y) (fun b => f b x)) {b b' : β}
    (hrun : (phases.flatMap Prod.fst).foldlM f b = .ok b') :
    (phases.flatMap Prod.snd).foldlM f b' =
      (phases.flatMap fun p => p.1 ++ p.2).foldlM f b := by
  induction phases generalizing b b' with
  | nil =>
    obtain rfl := Except.ok.inj hrun
    rfl
  | cons p rest ih =>
    obtain ⟨hlater, hpairwise⟩ := List.pairwise_cons.mp h
    rw [List.flatMap_cons, List.foldlM_append, bind_eq_ok] at hrun
    obtain ⟨b₁, hfirst, hrest⟩ := hrun
    have hdefers : Defers (fun b => (rest.flatMap Prod.fst).foldlM f b)
        (fun b => p.2.foldlM f b) := by
      apply Defers.foldlM_left
      intro y hy
      obtain ⟨q, hq, hyq⟩ := List.mem_flatMap.mp hy
      exact Defers.foldlM_right fun x hx => hlater q hq y hyq x hx
    simp only [List.flatMap_cons, List.foldlM_append, hfirst]
    change p.2.foldlM f b' >>= _ = p.2.foldlM f b₁ >>= _
    cases hsecond : p.2.foldlM f b₁ with
    | error e =>
      rw [hdefers.error hrest hsecond]
      rfl
    | ok c =>
      obtain ⟨c', hc', hsame⟩ := hdefers.ok hrest hsecond
      rw [hsame]
      exact ih hpairwise hc'

section
variable {c : Category}

/-- Whatever failure the outcome may be, it is reported under the category. -/
def FailsOnlyAs (c : Category) (x : Outcome α) : Prop := ∀ f, x = .error f → f.report.category = c

theorem FailsOnlyAs.of_ok {x : Outcome α} (h : ∃ a, x = .ok a) : FailsOnlyAs c x := by
  obtain ⟨a, rfl⟩ := h
  exact fun f hf => nomatch hf

theorem FailsOnlyAs.of_error {f : Failure} (h : f.report.category = c) :
    FailsOnlyAs c (.error f : Outcome α) := by
  intro f' hf'
  rw [← Except.error.inj hf', h]

theorem FailsOnlyAs.ite {p : Prop} [Decidable p] {x y : Outcome α} (hx : FailsOnlyAs c x)
    (hy : FailsOnlyAs c y) : FailsOnlyAs c (if p then x else y) := by
  split
  · exact hx
  · exact hy

theorem FailsOnlyAs.bind {x : Outcome α} {g : α → Outcome β} (hx : FailsOnlyAs c x)
    (hg : ∀ a, x = .ok a → FailsOnlyAs c (g a)) : FailsOnlyAs c (x >>= g) := by
  cases x with
  | error e => exact fun f hf => hx f (Except.error.inj hf ▸ rfl)
  | ok a => exact hg a rfl

theorem FailsOnlyAs.foldlM {l : List α}
    (h : ∀ a ∈ l, ∀ b, FailsOnlyAs c (f b a)) (b : β) : FailsOnlyAs c (l.foldlM f b) := by
  intro e he
  obtain ⟨a, ha, b', hb'⟩ := foldlM_eq_error he
  exact h a ha b' e hb'

end

end Outcome

namespace Model

theorem check_eq_ok {kind : String} {problems : List Problem} {u : Unit} :
    check kind problems = .ok u ↔ problems = [] := by
  simp [check]

theorem check_failsOnlyAs (kind : String) (problems : List Problem) :
    (check kind problems).FailsOnlyAs .validation := by
  unfold check
  exact .ite (.of_ok ⟨_, rfl⟩) (.of_error rfl)

private theorem checked_eq_ok {kind : String} {problems : List Problem} {m m' : Model} :
    (do check kind problems; return m : Outcome Model) = .ok m' ↔ problems = [] ∧ m' = m := by
  rw [Outcome.bind_eq_ok]
  constructor
  · rintro ⟨u, hu, hm⟩
    exact ⟨check_eq_ok.mp hu, (Except.ok.inj hm).symm⟩
  · rintro ⟨hp, rfl⟩
    exact ⟨(), check_eq_ok.mpr hp, rfl⟩

theorem addEntity_eq_ok {m m' : Model} {e : Entity} :
    m.addEntity e = .ok m' ↔
      e.problems = [] ∧ m' = { m with entities := m.entities.insert e.name e } :=
  checked_eq_ok

theorem addEnumeration_eq_ok {m m' : Model} {e : Enumeration} :
    m.addEnumeration e = .ok m' ↔
      e.problems = [] ∧ m' = { m with enumerations := m.enumerations.insert e.name e } :=
  checked_eq_ok

theorem addRelationship_eq_ok {m m' : Model} {r : Relationship} :
    m.addRelationship r = .ok m' ↔
      r.problems = [] ∧ m' = { m with relationships := (m.relationships.add r).1 } :=
  checked_eq_ok

theorem addOption_eq_ok {m m' : Model} {o : GeneratorOption} :
    m.addOption o = .ok m' ↔ o.problems = [] ∧ m' = { m with options := m.options.add o } :=
  checked_eq_ok

theorem addApplication_eq_ok {m m' : Model} {a : Application} :
    m.addApplication a = .ok m' ↔ a.problems = [] ∧
      m' = { m with applications := m.applications.insert (a.baseName?.getD "") a } :=
  checked_eq_ok

end Model
end DomainModel
