import DomainModel.Proofs.Models.Problems
import DomainModel.Proofs.Models.Settings
/-!
# New applications without problems

The checks of an application read its settings, and those of a new application are the defaults
where the user says nothing. No default fails a check, so only what the user says can be wrong.
-/
namespace DomainModel

/-- A text that is not empty. -/
def Json.IsFilled (v : Json) : Prop := ∃ t, v = .text t ∧ t ≠ ""

theorem Problem.mem_onlyIf {condition : Bool} {p q : Problem} :
    q ∈ onlyIf condition p ↔ condition = true ∧ q = p := by
  cases condition <;> simp [onlyIf]

namespace Settings
variable {s user : Settings} {key : String}

/-! ## What the checks read -/

theorem bool?_eq_some {b : Bool} : s.bool? key = some b ↔ ∃ v ∈ s.find? key, v = .bool b := by
  have hbool : ∀ {v : Json}, v.bool? = some b ↔ v = .bool b := by
    intro v
    unfold Json.bool?
    split
    · simp
    · next hother => simpa using hother b
  rw [bool?, Option.bind_eq_some_iff]
  simp only [hbool, Option.mem_def]

theorem isNone_text? : (s.text? key).isNone = false ↔ ∃ v ∈ s.find? key, v.IsFilled := by
  rw [Option.isNone_eq_false_iff, Option.isSome_iff_exists]
  simp only [text?_eq_some, Json.IsFilled, Option.mem_def]
  constructor
  · rintro ⟨t, hfound, hfilled⟩
    exact ⟨_, hfound, t, rfl, hfilled⟩
  · rintro ⟨_, hfound, t, rfl, hfilled⟩
    exact ⟨t, hfound, hfilled⟩

end Settings

namespace Application
variable {s : Settings}

/-! ## The checks -/

theorem buildToolProblems_eq_nil : buildToolProblems s = [] ↔
    ∃ v ∈ s.find? "buildTool", v = .text "maven" ∨ v = .text "gradle" := by
  have hknown : ∀ tool, buildTools.contains tool = true ↔ tool = "maven" ∨ tool = "gradle" := by
    simp [buildTools]
  unfold buildToolProblems
  split
  · next hnone =>
    simp only [List.cons_ne_nil, false_iff, not_exists, not_and]
    rintro v hfound hv
    have hfilled : v.IsFilled := by
      rcases hv with rfl | rfl
      · exact ⟨_, rfl, by decide⟩
      · exact ⟨_, rfl, by decide⟩
    have hsome := Settings.isNone_text?.mpr ⟨v, hfound, hfilled⟩
    rw [hnone] at hsome
    exact absurd hsome (by decide)
  · next tool htool =>
    obtain ⟨hfound, -⟩ := Settings.text?_eq_some.mp htool
    rw [Problem.onlyIf_eq_nil, Bool.not_eq_false', hknown, hfound]
    simp

theorem secretProblems_eq_nil :
    secretProblems s = [] ↔ ∀ key, s.secretKey? = some key → s.holds key = true := by
  unfold secretProblems Settings.secretKey?
  split <;> simp

theorem mem_secretProblems {a : Application} {p : Problem}
    (hp : p = .jwtSecretMissing ∨ p = .rememberMeKeyMissing) (h : p ∈ a.problems) :
    p ∈ secretProblems a.settings := by
  have htool : p ∉ buildToolProblems a.settings := by
    unfold buildToolProblems
    split <;> rcases hp with rfl | rfl <;> simp [Problem.mem_onlyIf]
  simp only [problems, List.mem_append, Problem.mem_onlyIf, htool] at h
  rcases hp with rfl | rfl <;> simpa using h

end Application

namespace Settings
variable {s user : Settings} {key : String}

/-- The user says nothing that makes a new application wrong. -/
structure Sound (user : Settings) : Prop where
  baseName : ∀ v ∈ user.find? "baseName", v.IsFilled
  authentication : ∀ v ∈ user.find? "authenticationType", v.IsFilled
  buildTool : ∀ v ∈ user.find? "buildTool", v = .text "maven" ∨ v = .text "gradle"
  language : (∃ v ∈ user.find? "enableTranslation", v ≠ .bool true) ∨
    ∀ v ∈ user.find? "nativeLanguage", v.IsFilled
  client : user.find? "applicationType" = some (.text "microservice") ∨
      user.find? "applicationType" = some (.text "uaa") →
    ∀ v ∈ user.find? "skipClient", v = .bool true

/-- A key with a default satisfies what the default satisfies unless the user says otherwise. -/
theorem exists_withDefaults_iff (secrets : Secrets) {p : Json → Prop} {default : Json}
    (hkey : key ∉ followingKeys)
    (hdefault : Table.lookup key (baseDefaults ++ lateDefaults) = some default) (hp : p default) :
    (∃ v ∈ (user.withDefaults secrets).find? key, p v) ↔ ∀ v ∈ user.find? key, p v := by
  rw [find?_withDefaults_plain secrets user hkey, hdefault]
  cases user.find? key with
  | none => simpa using hp
  | some v => simp

theorem isHeadless_withDefaults (secrets : Secrets) (user : Settings) :
    (user.withDefaults secrets).isHeadless = true ↔
      user.find? "applicationType" = some (.text "microservice") ∨
        user.find? "applicationType" = some (.text "uaa") := by
  rw [isHeadless_iff, find?_withDefaults_plain secrets user (by decide)]
  cases user.find? "applicationType" with
  | none => decide
  | some v => rfl

theorem find?_withDefaults_skipClient (secrets : Secrets) (user : Settings) :
    (user.withDefaults secrets).find? "skipClient" =
      some ((user.find? "skipClient").getD (.bool (user.withDefaults secrets).isHeadless)) := by
  cases hfound : user.find? "skipClient" with
  | none => exact find?_skipClient_of_unstated (Table.lookup_eq_none_iff.mp hfound)
  | some v =>
    rw [find?_withDefaults_of_ne _ _ (by decide) (by decide), find?_followed_of_stated hfound]
    rfl

end Settings

namespace Application
open Settings

section New
variable (secrets : Secrets) (user : Settings)

theorem secretProblems_withDefaults : secretProblems (user.withDefaults secrets) = [] :=
  secretProblems_eq_nil.mpr (completed_withDefaults secrets user).complete.secret

theorem languageProblems_withDefaults :
    ((user.withDefaults secrets).bool? "enableTranslation" == some true &&
        ((user.withDefaults secrets).text? "nativeLanguage").isNone) = false ↔
      (∃ v ∈ user.find? "enableTranslation", v ≠ .bool true) ∨
        ∀ v ∈ user.find? "nativeLanguage", v.IsFilled := by
  have htranslated : (user.withDefaults secrets).bool? "enableTranslation" = some true ↔
      ∀ v ∈ user.find? "enableTranslation", v = .bool true :=
    bool?_eq_some.trans (exists_withDefaults_iff secrets (by decide) rfl rfl)
  have hlanguage : ((user.withDefaults secrets).text? "nativeLanguage").isNone = false ↔
      ∀ v ∈ user.find? "nativeLanguage", v.IsFilled :=
    isNone_text?.trans (exists_withDefaults_iff secrets (by decide) rfl ⟨"en", rfl, by decide⟩)
  rw [Bool.and_eq_false_iff, hlanguage, beq_eq_false_iff_ne, ne_eq, htranslated]
  simp only [not_forall, exists_prop]

theorem clientProblems_withDefaults :
    ((user.withDefaults secrets).isHeadless &&
        (user.withDefaults secrets).bool? "skipClient" != some true) = false ↔
      (user.find? "applicationType" = some (.text "microservice") ∨
          user.find? "applicationType" = some (.text "uaa") →
        ∀ v ∈ user.find? "skipClient", v = .bool true) := by
  rw [← isHeadless_withDefaults secrets user]
  cases hheadless : (user.withDefaults secrets).isHeadless with
  | false => simp
  | true =>
    have hskipped : (user.withDefaults secrets).bool? "skipClient" = some true ↔
        ∀ v ∈ user.find? "skipClient", v = .bool true := by
      rw [bool?_eq_some, find?_withDefaults_skipClient, hheadless]
      cases user.find? "skipClient" <;> simp
    simp [hskipped]

/-- A new application is wrong only by what the user says, and never by its secrets. -/
theorem problems_new_eq_nil_iff :
    ((Application.new secrets user).problems = [] ↔ user.Sound) ∧
      .jwtSecretMissing ∉ (Application.new secrets user).problems ∧
      .rememberMeKeyMissing ∉ (Application.new secrets user).problems := by
  have hbase : (user.withDefaults secrets).baseName?.isNone = false ↔
      ∀ v ∈ user.find? "baseName", v.IsFilled :=
    isNone_text?.trans (exists_withDefaults_iff secrets (by decide) rfl ⟨_, rfl, by decide⟩)
  have hauthentication : ((user.withDefaults secrets).text? "authenticationType").isNone = false ↔
      ∀ v ∈ user.find? "authenticationType", v.IsFilled :=
    isNone_text?.trans (exists_withDefaults_iff secrets (by decide) rfl ⟨_, rfl, by decide⟩)
  have htool : buildToolProblems (user.withDefaults secrets) = [] ↔
      ∀ v ∈ user.find? "buildTool", v = .text "maven" ∨ v = .text "gradle" :=
    buildToolProblems_eq_nil.trans (exists_withDefaults_iff secrets (by decide) rfl (.inl rfl))
  have hsecrets := secretProblems_withDefaults secrets user
  have hnone : ∀ p, p = .jwtSecretMissing ∨ p = .rememberMeKeyMissing →
      p ∉ (Application.new secrets user).problems := by
    intro p hp hmem
    have hsecret : p ∈ secretProblems (user.withDefaults secrets) :=
      mem_secretProblems hp hmem
    rw [hsecrets] at hsecret
    exact absurd hsecret List.not_mem_nil
  refine ⟨?_, hnone _ (.inl rfl), hnone _ (.inr rfl)⟩
  simp only [problems, new, List.append_eq_nil_iff, Problem.onlyIf_eq_nil, hbase, hauthentication,
    htool, hsecrets, languageProblems_withDefaults, clientProblems_withDefaults, true_and,
    and_assoc]
  constructor
  · rintro ⟨hbase, hauthentication, htool, hlanguage, hclient⟩
    exact ⟨hbase, hauthentication, htool, hlanguage, hclient⟩
  · rintro ⟨hbase, hauthentication, htool, hlanguage, hclient⟩
    exact ⟨hbase, hauthentication, htool, hlanguage, hclient⟩

end New

/-- Null is something the user says: it is no default, and it does not skip the client. -/
example : (Application.new ⟨"", ""⟩ (Table.ofList
    [("applicationType", .text "uaa"), ("baseName", .null), ("skipClient", .null)])).problems =
      [.baseNameMissing, .clientNotSkipped] := by
  decide +kernel

end Application
end DomainModel
