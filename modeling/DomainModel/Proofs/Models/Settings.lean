import DomainModel.Proofs.Models.Defaults
/-!
# Settings of new applications

The database of a new application is what the user says or else the default. A new application
receives the secret that it needs, whatever the secret is, so its secrets do not decide whether
anything is wrong with it.
-/
namespace DomainModel

namespace Settings

theorem find?_databaseType (secrets : Secrets) (user : Settings) :
    (user.withDefaults secrets).find? "databaseType" =
      some ((user.find? "databaseType").getD (.text "sql")) := by
  rw [find?_withDefaults_plain secrets user (by decide)]
  cases user.find? "databaseType" <;> rfl

/-- Settings that differ in secrets alone, and hold the same ones. -/
structure SameButSecrets (s s' : Settings) : Prop where
  plain : ∀ key, key ≠ jwtSecretKey → key ≠ rememberMeKey → s.find? key = s'.find? key
  holds : ∀ key, s.holds key = s'.holds key

theorem sameButSecrets_withSecret (x y : Secrets) (s : Settings) :
    SameButSecrets (s.withSecret x) (s.withSecret y) := by
  constructor
  · intro key hjwt hsession
    rw [find?_withSecret_of_ne x s hjwt hsession, find?_withSecret_of_ne y s hjwt hsession]
  · intro key
    rw [Settings.holds, Settings.holds, find?_withSecret, find?_withSecret]
    by_cases hdue : s.dueSecret? s = some key <;> simp [hdue, Json.isNull]

end Settings

namespace Application

theorem problems_congr {a b : Application} (h : a.settings.SameButSecrets b.settings) :
    a.problems = b.problems := by
  have hbase := h.plain "baseName" (by decide) (by decide)
  have hauthentication := h.plain "authenticationType" (by decide) (by decide)
  have htool := h.plain "buildTool" (by decide) (by decide)
  have htranslation := h.plain "enableTranslation" (by decide) (by decide)
  have hlanguage := h.plain "nativeLanguage" (by decide) (by decide)
  have htype := h.plain "applicationType" (by decide) (by decide)
  have hclient := h.plain "skipClient" (by decide) (by decide)
  simp only [problems, buildToolProblems, secretProblems, Settings.baseName?, Settings.isHeadless,
    Settings.applicationType?, Settings.authenticationType?, Settings.text?, Settings.bool?, hbase,
    hauthentication, htool, htranslation, hlanguage, htype, hclient, h.holds]

end Application
end DomainModel
