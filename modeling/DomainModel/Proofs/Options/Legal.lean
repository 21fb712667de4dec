import DomainModel.Model.Option
import DomainModel.Proofs.Text.Pieces
/-!
# Legal options

An option that is made from a name, or from a name and a value, has a known name and a value that
it may carry, whatever its scope. The keys of such options tell their names and values apart.
-/
namespace DomainModel

namespace OptionName

theorem isUnary_ne_empty {name : String} (h : isUnary name = true) : name ≠ "" := by
  rintro rfl
  exact absurd h (by decide)

theorem isBinary_ne_empty {name : String} (h : isBinary name = true) : name ≠ "" := by
  rintro rfl
  exact absurd h (by decide)

theorem isLegalValue_ne_empty {name value : String} (h : isLegalValue name value = true) :
    value ≠ "" := by
  rintro rfl
  unfold isLegalValue at h
  have hvalues : ∀ b ∈ binaries, ∀ values, b.2 = some values → values.contains "" = false := by
    decide
  split at h
  · next values hfind =>
    rw [hvalues _ (List.mem_of_find?_eq_some hfind) values rfl] at h
    exact Bool.false_ne_true h
  · exact absurd h (by decide)
  · exact Bool.false_ne_true h

theorem isUnary_eq_false_of_isBinary {name : String} (h : isBinary name = true) :
    isUnary name = false := by
  have hall : ∀ b ∈ binaries, isUnary b.1 = false := by decide
  obtain ⟨b, hb, hname⟩ := List.any_eq_true.mp h
  rw [← beq_iff_eq.mp hname]
  exact hall b hb

theorem refusal?_eq_none {name : String} (h : name ≠ pagination) (t : DatabaseType) :
    refusal? name t = none := by
  simp [refusal?, refusals, h.symm]

theorem unseparated {name : String} (h : isUnary name = true ∨ isBinary name = true) :
    '_' ∉ name.toList := by
  have hunary : ∀ name ∈ unaries, '_' ∉ name.toList := by decide
  have hbinary : ∀ b ∈ binaries, '_' ∉ b.1.toList := by decide
  rcases h with h | h
  · exact hunary name (by simpa [isUnary] using h)
  · obtain ⟨b, hb, hname⟩ := List.any_eq_true.mp h
    rw [← beq_iff_eq.mp hname]
    exact hbinary b hb

end OptionName

namespace GeneratorOption

/-- Options made from a name, or a name and a value, and given any scope. -/
inductive Built : GeneratorOption → Prop where
  | flag {name : String} {o : GeneratorOption} (h : ofFlag name = .ok o) : Built o
  | value {name value : String} {o : GeneratorOption} (h : ofValue name value = .ok o) : Built o
  | withScope {o : GeneratorOption} (h : Built o) (scope : Scope) : Built (o.withScope scope)

/-- The name is known, and the value is one that the option may carry. -/
def Legal : GeneratorOption → Prop
  | unary name _ => OptionName.isUnary name = true
  | binary name value _ =>
    OptionName.isBinary name = true ∧ OptionName.isLegalValue name value = true

instance (o : GeneratorOption) : Decidable o.Legal :=
  match o with
  | unary name _ => inferInstanceAs (Decidable (OptionName.isUnary name = true))
  | binary name value _ => inferInstanceAs (Decidable (OptionName.isBinary name = true ∧
      OptionName.isLegalValue name value = true))

@[simp] theorem name_withScope (o : GeneratorOption) (scope : Scope) :
    (o.withScope scope).name = o.name := by
  cases o <;> rfl

@[simp] theorem value?_withScope (o : GeneratorOption) (scope : Scope) :
    (o.withScope scope).value? = o.value? := by
  cases o <;> rfl

@[simp] theorem scope_withScope (o : GeneratorOption) (scope : Scope) :
    (o.withScope scope).scope = scope := by
  cases o <;> rfl

@[simp] theorem key_withScope (o : GeneratorOption) (scope : Scope) :
    (o.withScope scope).key = o.key := by
  cases o <;> rfl

theorem eq_of_name_value_scope {o p : GeneratorOption} (hname : o.name = p.name)
    (hvalue : o.value? = p.value?) (hscope : o.scope = p.scope) : o = p := by
  cases o with
  | unary name scope =>
    cases p with
    | unary name' scope' => exact congr (congrArg unary hname) hscope
    | binary name' value' scope' => cases hvalue
  | binary name value scope =>
    cases p with
    | unary name' scope' => cases hvalue
    | binary name' value' scope' =>
      exact congr (congr (congrArg binary hname) (Option.some.inj hvalue)) hscope

theorem Legal.withScope {o : GeneratorOption} (h : o.Legal) (scope : Scope) :
    (o.withScope scope).Legal := by
  cases o <;> exact h

theorem ofFlag_eq_ok {name : String} {o : GeneratorOption} :
    ofFlag name = .ok o ↔ OptionName.isUnary name = true ∧ o = .unary name Scope.all := by
  unfold ofFlag
  split
  · next h => simp [h, eq_comm]
  · next h => simp [h]

theorem ofValue_eq_ok {name value : String} {o : GeneratorOption} :
    ofValue name value = .ok o ↔ (OptionName.isBinary name = true ∧
      OptionName.isLegalValue name value = true) ∧ o = .binary name value Scope.all := by
  unfold ofValue
  split
  · next hname => simp [show OptionName.isBinary name = false by simpa using hname]
  · next hname =>
    split
    · next hvalue => simp [show OptionName.isLegalValue name value = false by simpa using hvalue]
    · next hvalue =>
      have hname : OptionName.isBinary name = true := by simpa using hname
      have hvalue : OptionName.isLegalValue name value = true := by simpa using hvalue
      simp [hname, hvalue, eq_comm]

theorem Built.legal {o : GeneratorOption} (h : o.Built) : o.Legal := by
  induction h with
  | flag h =>
    obtain ⟨hname, rfl⟩ := ofFlag_eq_ok.mp h
    exact hname
  | value h =>
    obtain ⟨hlegal, rfl⟩ := ofValue_eq_ok.mp h
    exact hlegal
  | withScope _ scope ih => exact ih.withScope scope

theorem Legal.built {o : GeneratorOption} (h : o.Legal) : o.Built := by
  cases o with
  | unary name scope => exact (Built.flag (ofFlag_eq_ok.mpr ⟨h, rfl⟩)).withScope scope
  | binary name value scope => exact (Built.value (ofValue_eq_ok.mpr ⟨h, rfl⟩)).withScope scope

theorem Legal.isSome_value?_iff {o : GeneratorOption} (h : o.Legal) :
    o.value?.isSome = true ↔ OptionName.isBinary o.name = true := by
  cases o with
  | unary name scope =>
    refine iff_of_false (by simp [value?]) fun hbinary => ?_
    exact Bool.false_ne_true ((OptionName.isUnary_eq_false_of_isBinary hbinary).symm.trans h)
  | binary name value scope => exact iff_of_true rfl h.1

theorem Legal.name_unseparated {o : GeneratorOption} (h : o.Legal) : '_' ∉ o.name.toList := by
  cases o with
  | unary name scope => exact OptionName.unseparated (.inl h)
  | binary name value scope => exact OptionName.unseparated (.inr h.1)

/-- The key of a flag is cut nowhere, that of an option with a value after the name. -/
theorem Legal.key_eq_iff {o p : GeneratorOption} (ho : o.Legal) (hp : p.Legal) :
    o.key = p.key ↔ o.name = p.name ∧ o.value? = p.value? := by
  have hname := ho.name_unseparated
  have hname' := hp.name_unseparated
  have hcut : ∀ name value : String,
      (name ++ "_" ++ value).toList = name.toList ++ '_' :: value.toList := by simp
  cases o with
  | unary name scope =>
    cases p with
    | unary name' scope' => simp [key, GeneratorOption.name, value?]
    | binary name' value' scope' =>
      have hne : name ≠ name' ++ "_" ++ value' := by
        rintro rfl
        exact hname (by rw [GeneratorOption.name, hcut]; simp)
      simp [key, value?, hne]
  | binary name value scope =>
    cases p with
    | unary name' scope' =>
      have hne : name ++ "_" ++ value ≠ name' := by
        rintro rfl
        exact hname' (by rw [GeneratorOption.name, hcut]; simp)
      simp [key, value?, hne]
    | binary name' value' scope' =>
      constructor
      · intro h
        have hlist := congrArg String.toList h
        rw [key, key, hcut, hcut] at hlist
        obtain ⟨hn, hv⟩ := cut_inj hname hname' hlist
        exact ⟨String.toList_inj.mp hn, congrArg some (String.toList_inj.mp hv)⟩
      · rintro ⟨hn, hv⟩
        obtain rfl : name = name' := hn
        obtain rfl : value = value' := Option.some.inj hv
        rfl

end GeneratorOption
end DomainModel
