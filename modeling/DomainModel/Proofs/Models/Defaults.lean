import DomainModel.Model.Settings
import DomainModel.Proofs.Tables
/-!
# Settings over defaults

The settings of a new application are those of the user over the defaults, and then some that
follow from others. What the user says stays, except for a missing secret, and settings that were
completed once are complete.
-/
namespace DomainModel

theorem ApplicationType.ofWord?_eq_some {word : String} {t : ApplicationType} :
    ofWord? word = some t ↔ word = t.word := by
  constructor
  · intro h
    have hword := List.find?_some (p := fun t : ApplicationType => t.word == word) h
    exact (beq_iff_eq.mp hword).symm
  · rintro rfl
    cases t <;> rfl

theorem AuthenticationType.ofWord?_eq_some {word : String} {t : AuthenticationType} :
    ofWord? word = some t ↔ word = t.word := by
  constructor
  · intro h
    have hword := List.find?_some (p := fun t : AuthenticationType => t.word == word) h
    exact (beq_iff_eq.mp hword).symm
  · rintro rfl
    cases t <;> rfl

namespace Settings
variable {secrets : Secrets} {user s : Settings}

def baseKeys : List String := baseDefaults.map Prod.fst

def lateKeys : List String := lateDefaults.map Prod.fst

/-- The keys under which a new application may be given what the user does not say. -/
def followingKeys : List String := ["packageFolder", "skipClient", jwtSecretKey, rememberMeKey]

/-- The settings of the user over the defaults, before any of them follows from others. -/
def merged (user : Settings) : Settings :=
  ((withBase user).fillIn user.entries).fillIn lateDefaults

/-- The settings of a new application but for its secret. -/
def followed (user : Settings) : Settings :=
  withClientChoice user (withPackageFolder user user.merged)

theorem find?_fillIn (s : Settings) (l : List (String × Json)) (key : String) :
    (s.fillIn l).find? key = (s.find? key).or (Table.lookup key l) := by
  induction l generalizing s with
  | nil => exact Option.or_none.symm
  | cons e rest ih =>
    change (fillIn (s.insertNew e.1 e.2) rest).find? key = _
    rw [ih, Table.find?_insertNew, Option.or_assoc]
    by_cases he : e.1 = key <;> simp [Table.lookup, he]

theorem keys_fillIn (s : Settings) {l : List (String × Json)} (h : (l.map Prod.fst).Nodup) :
    (s.fillIn l).keys = s.keys ++ (l.map Prod.fst).filter (· ∉ s.keys) := by
  induction l generalizing s with
  | nil => simp [fillIn]
  | cons e rest ih =>
    obtain ⟨hfresh, hrest⟩ := List.nodup_cons.mp h
    change (fillIn (s.insertNew e.1 e.2) rest).keys = _
    rw [ih _ hrest, Table.keys_insertNew, List.map_cons]
    by_cases he : e.1 ∈ s.keys
    · simp [he]
    · -- the new key is none of the later ones, so it does not decide which of them are missing
      have hothers : (rest.map Prod.fst).filter (· ∉ s.keys ++ [e.1]) =
          (rest.map Prod.fst).filter (· ∉ s.keys) := by
        refine List.filter_congr fun key hkey => ?_
        have hne : key ≠ e.1 := fun h => hfresh (h ▸ hkey)
        simp [hne]
      rw [if_neg he, hothers, List.filter_cons_of_pos (by simpa using he), List.append_assoc,
        List.singleton_append]

theorem entries_withBase (user : Settings) :
    (withBase user).entries = baseDefaults.map fun d => (d.1, (user.find? d.1).getD d.2) :=
  Table.entries_ofList (by
    rw [List.map_map]
    exact (by decide : baseKeys.Nodup))

theorem keys_withBase (user : Settings) : (withBase user).keys = baseKeys := by
  rw [Table.keys, entries_withBase, List.map_map]
  rfl

theorem find?_merged (user : Settings) (key : String) :
    user.merged.find? key =
      (user.find? key).or (Table.lookup key (baseDefaults ++ lateDefaults)) := by
  have hbase : (withBase user).find? key =
      (Table.lookup key baseDefaults).map (user.find? key).getD := by
    unfold Table.find?
    rw [entries_withBase]
    exact Table.lookup_map_values (fun key v => (user.find? key).getD v) key baseDefaults
  have huser : Table.lookup key user.entries = user.find? key := rfl
  rw [merged, find?_fillIn, find?_fillIn, hbase, huser, Table.lookup_append]
  cases user.find? key <;> cases Table.lookup key baseDefaults <;> rfl

/-- The keys of new settings before a secret is due. -/
def listedKeys (user : Settings) : List String :=
  baseKeys ++ user.keys.filter (· ∉ baseKeys) ++ lateKeys.filter (· ∉ user.keys)

theorem keys_merged (user : Settings) : user.merged.keys = user.listedKeys := by
  have hlate : ∀ key ∈ lateKeys, key ∉ baseKeys := by decide
  rw [merged, keys_fillIn _ (by decide), keys_fillIn _ user.distinct, keys_withBase]
  refine congrArg (baseKeys ++ user.keys.filter (· ∉ baseKeys) ++ ·)
    (List.filter_congr fun key hkey => ?_)
  have hfresh : key ∉ baseKeys := hlate key hkey
  exact decide_eq_decide.mpr (not_congr (by simp [hfresh, Table.keys]))

theorem mem_keys_merged {key : String} (h : key ∈ baseKeys) : key ∈ user.merged.keys := by
  rw [keys_merged]
  exact List.mem_append_left _ (List.mem_append_left _ h)

/-! ## What is read from settings -/

theorem text?_congr {s' : Settings} {key : String} (h : s.find? key = s'.find? key) :
    s.text? key = s'.text? key := by
  rw [text?, text?, h]

theorem isHeadless_congr {s' : Settings}
    (h : s.find? "applicationType" = s'.find? "applicationType") :
    s.isHeadless = s'.isHeadless := by
  simp only [isHeadless, applicationType?, text?_congr h]

theorem secretKey?_congr {s' : Settings}
    (h : s.find? "authenticationType" = s'.find? "authenticationType") :
    s.secretKey? = s'.secretKey? := by
  simp only [secretKey?, authenticationType?, text?_congr h]

theorem text?_eq_some {t : String} :
    s.text? key = some t ↔ s.find? key = some (.text t) ∧ t ≠ "" := by
  unfold text?
  split
  · next found hfound =>
    rw [hfound]
    by_cases hempty : found = ""
    · simp [hempty, eq_comm]
    · simp only [hempty, if_false, Option.some_inj, Json.scalar.injEq, Scalar.text.injEq]
      constructor
      · rintro rfl
        exact ⟨rfl, hempty⟩
      · exact And.left
  · next hother =>
    simp only [reduceCtorEq, false_iff, not_and]
    intro hfound
    exact absurd hfound (hother t)

theorem applicationType?_eq_some {t : ApplicationType} :
    s.applicationType? = some t ↔ s.find? "applicationType" = some (.text t.word) := by
  have hword : t.word ≠ "" := by cases t <;> decide
  rw [applicationType?, Option.bind_eq_some_iff]
  simp only [text?_eq_some, ApplicationType.ofWord?_eq_some, exists_eq_right]
  exact and_iff_left hword

theorem authenticationType?_eq_some {t : AuthenticationType} :
    s.authenticationType? = some t ↔ s.find? "authenticationType" = some (.text t.word) := by
  have hword : t.word ≠ "" := by cases t <;> decide
  rw [authenticationType?, Option.bind_eq_some_iff]
  simp only [text?_eq_some, AuthenticationType.ofWord?_eq_some, exists_eq_right]
  exact and_iff_left hword

theorem isHeadless_iff : s.isHeadless = true ↔
    s.find? "applicationType" = some (.text "microservice") ∨
      s.find? "applicationType" = some (.text "uaa") := by
  rw [isHeadless, Bool.or_eq_true, beq_iff_eq, beq_iff_eq, applicationType?_eq_some,
    applicationType?_eq_some]
  rfl

theorem secretKey?_eq_some_iff {key : String} : s.secretKey? = some key ↔
    s.find? "authenticationType" = some (.text "jwt") ∧ key = "jwtSecretKey" ∨
      s.find? "authenticationType" = some (.text "session") ∧ key = "rememberMeKey" := by
  have hjwt : s.authenticationType? = some .jwt ↔
      s.find? "authenticationType" = some (.text "jwt") := authenticationType?_eq_some
  have hsession : s.authenticationType? = some .session ↔
      s.find? "authenticationType" = some (.text "session") := authenticationType?_eq_some
  rw [← hjwt, ← hsession]
  unfold secretKey?
  cases s.authenticationType? with
  | none => simp
  | some t => cases t <;> simp [eq_comm, jwtSecretKey, rememberMeKey]

theorem holds_eq_false_iff {key : String} : s.holds key = false ↔ ∀ v ∈ s.find? key, v = .null := by
  have hnull : ∀ v : Json, v.isNull = true ↔ v = .null := by
    intro v
    unfold Json.isNull
    split <;> simp_all
  unfold holds
  cases s.find? key with
  | none => simp
  | some v => simp [hnull]

/-! ## Settings that follow from others -/

theorem keys_withPackageFolder (user : Settings) (h : "packageFolder" ∈ s.keys) :
    (withPackageFolder user s).keys = s.keys := by
  unfold withPackageFolder
  split
  · rfl
  · split
    · rw [Table.keys_insert, if_pos h]
    · rfl

theorem find?_withPackageFolder (user s : Settings) {key : String} (h : key ≠ "packageFolder") :
    (withPackageFolder user s).find? key = s.find? key := by
  unfold withPackageFolder
  split
  · rfl
  · split
    · rw [Table.find?_insert, if_neg h.symm]
    · rfl

theorem keys_withClientChoice (user : Settings) (h : "skipClient" ∈ s.keys) :
    (withClientChoice user s).keys = s.keys := by
  unfold withClientChoice
  split
  · rw [Table.keys_insert, if_pos h]
  · rfl

theorem find?_withClientChoice (user s : Settings) {key : String} (h : key ≠ "skipClient") :
    (withClientChoice user s).find? key = s.find? key := by
  unfold withClientChoice
  split
  · rw [Table.find?_insert, if_neg h.symm]
  · rfl

theorem keys_followed (user : Settings) : user.followed.keys = user.listedKeys := by
  have hfolder : (withPackageFolder user user.merged).keys = user.merged.keys :=
    keys_withPackageFolder user (mem_keys_merged (by decide))
  have hclient : "skipClient" ∈ (withPackageFolder user user.merged).keys := by
    rw [hfolder]
    exact mem_keys_merged (by decide)
  rw [followed, keys_withClientChoice user hclient, hfolder, keys_merged]

theorem find?_followed {key : String} (hfolder : key ≠ "packageFolder")
    (hclient : key ≠ "skipClient") :
    user.followed.find? key =
      (user.find? key).or (Table.lookup key (baseDefaults ++ lateDefaults)) := by
  rw [followed, find?_withClientChoice _ _ hclient, find?_withPackageFolder _ _ hfolder,
    find?_merged]

theorem find?_followed_of_stated {key : String} {v : Json} (h : user.find? key = some v) :
    user.followed.find? key = some v := by
  have hmerged : user.merged.find? key = some v := by rw [find?_merged, h, Option.some_or]
  have hcontains : user.contains key = true :=
    Table.contains_iff.mpr ((Table.mem_keys_iff user key).mpr ⟨v, h⟩)
  have hfolder : (withPackageFolder user user.merged).find? key = some v := by
    by_cases hkey : key = "packageFolder"
    · rw [withPackageFolder, if_pos (hkey ▸ hcontains), hmerged]
    · rw [find?_withPackageFolder _ _ hkey, hmerged]
  rw [followed]
  by_cases hkey : key = "skipClient"
  · rw [withClientChoice, ← hkey, hcontains]
    exact hfolder
  · rw [find?_withClientChoice _ _ hkey, hfolder]

theorem find?_followed_packageFolder (h : "packageFolder" ∉ user.keys) :
    user.followed.find? "packageFolder" = some (.text
      ((user.followed.text? "packageName").elim "com/mycompany/myapp" folderOf)) := by
  have hname : user.followed.text? "packageName" = user.merged.text? "packageName" :=
    text?_congr (by rw [find?_followed (by decide) (by decide), find?_merged])
  have hnone : user.find? "packageFolder" = none := Table.lookup_eq_none_iff.mpr h
  have hmerged : user.merged.find? "packageFolder" = some (.text "com/mycompany/myapp") := by
    rw [find?_merged, hnone]
    rfl
  rw [hname, followed, find?_withClientChoice _ _ (by decide), withPackageFolder,
    if_neg (by rwa [Table.contains_iff])]
  cases user.merged.text? "packageName" with
  | none => exact hmerged
  | some name => simp

theorem find?_followed_skipClient (h : "skipClient" ∉ user.keys) :
    user.followed.find? "skipClient" = some (.bool user.followed.isHeadless) := by
  have hheadless : user.followed.isHeadless = (withPackageFolder user user.merged).isHeadless :=
    isHeadless_congr (find?_withClientChoice _ _ (by decide))
  have hnone : user.find? "skipClient" = none := Table.lookup_eq_none_iff.mpr h
  have hmerged : (withPackageFolder user user.merged).find? "skipClient" = some (.bool false) := by
    rw [find?_withPackageFolder _ _ (by decide), find?_merged, hnone]
    rfl
  have hcontains : user.contains "skipClient" = false := by
    rwa [Bool.eq_false_iff, ne_eq, Table.contains_iff]
  rw [hheadless, followed, withClientChoice, hcontains]
  cases (withPackageFolder user user.merged).isHeadless with
  | false => exact hmerged
  | true => simp

/-! ## Secrets -/

/-- The key of a secret that new settings `s` need and the user does not give. -/
def dueSecret? (user s : Settings) : Option String :=
  s.secretKey?.filter fun key => !user.holds key

theorem secretKey?_eq_some {key : String} (h : s.secretKey? = some key) :
    key = jwtSecretKey ∨ key = rememberMeKey :=
  (secretKey?_eq_some_iff.mp h).imp And.right And.right

theorem secretKey?_of_dueSecret? {key : String} (h : user.dueSecret? s = some key) :
    s.secretKey? = some key ∧ user.holds key = false := by
  simpa [dueSecret?, Option.filter_eq_some_iff] using h

theorem withSecret_eq (secrets : Secrets) (s : Settings) :
    withSecret secrets s =
      ((s.dueSecret? s).map fun key => s.insert key (.text (secretFor secrets key))).getD s := by
  unfold withSecret dueSecret?
  cases s.secretKey? with
  | none => rfl
  | some key => cases hholds : s.holds key <;> simp [Option.filter, hholds]

theorem keys_withSecret (secrets : Secrets) (s : Settings) :
    (withSecret secrets s).keys = s.keys ++ (s.dueSecret? s).toList.filter (· ∉ s.keys) := by
  rw [withSecret_eq]
  cases s.dueSecret? s with
  | none => simp
  | some key => by_cases hkey : key ∈ s.keys <;> simp [hkey]

theorem find?_withSecret (secrets : Secrets) (s : Settings) (key : String) :
    (withSecret secrets s).find? key =
      if s.dueSecret? s = some key then some (.text (secretFor secrets key)) else s.find? key := by
  rw [withSecret_eq]
  cases s.dueSecret? s with
  | none => simp
  | some due => by_cases hkey : due = key <;> simp [hkey]

theorem find?_withSecret_of_ne (secrets : Secrets) (s : Settings) {key : String}
    (hjwt : key ≠ jwtSecretKey) (hsession : key ≠ rememberMeKey) :
    (withSecret secrets s).find? key = s.find? key := by
  rw [find?_withSecret, if_neg]
  intro hdue
  rcases secretKey?_eq_some (secretKey?_of_dueSecret? hdue).1 with hkey | hkey
  · exact hjwt hkey
  · exact hsession hkey

/-- The secrets have no defaults, so the user decides whether one is due. -/
theorem dueSecret?_followed (user : Settings) :
    user.followed.dueSecret? user.followed = user.dueSecret? user.followed := by
  unfold dueSecret?
  cases hkey : user.followed.secretKey? with
  | none => rfl
  | some key =>
    have hfind : user.followed.find? key = user.find? key := by
      rcases secretKey?_eq_some hkey with rfl | rfl
      · rw [find?_followed (by decide) (by decide)]
        exact Option.or_none
      · rw [find?_followed (by decide) (by decide)]
        exact Option.or_none
    have hholds : user.followed.holds key = user.holds key := by rw [holds, holds, hfind]
    rw [Option.filter_some, Option.filter_some, hholds]

/-- The authentication of the settings `s` needs the secret under the key, and the user gives none
but null. -/
def SecretDue (user s : Settings) (key : String) : Prop :=
  (s.find? "authenticationType" = some (.text "jwt") ∧ key = "jwtSecretKey" ∨
    s.find? "authenticationType" = some (.text "session") ∧ key = "rememberMeKey") ∧
  ∀ v ∈ user.find? key, v = .null

instance (user s : Settings) (key : String) : Decidable (SecretDue user s key) :=
  inferInstanceAs (Decidable (_ ∧ ∀ v ∈ user.find? key, v = .null))

theorem dueSecret?_eq_some_iff {key : String} :
    user.dueSecret? s = some key ↔ SecretDue user s key := by
  rw [dueSecret?, Option.filter_eq_some_iff, secretKey?_eq_some_iff, Bool.not_eq_true',
    holds_eq_false_iff, SecretDue]

theorem toList_dueSecret? (user s : Settings) : (user.dueSecret? s).toList =
    ["jwtSecretKey", "rememberMeKey"].filter fun key => SecretDue user s key := by
  simp only [← dueSecret?_eq_some_iff]
  cases hdue : user.dueSecret? s with
  | none => simp
  | some due =>
    rcases secretKey?_eq_some (secretKey?_of_dueSecret? hdue).1 with rfl | rfl
    · rfl
    · rfl

/-- Settings are completed by the defaults that they lack, by what follows from others, and by a
secret if one is due. -/
structure Completed (secrets : Secrets) (user s : Settings) : Prop where
  keys : s.keys = user.listedKeys ++
    ["jwtSecretKey", "rememberMeKey"].filter fun key =>
      SecretDue user s key ∧ key ∉ user.listedKeys
  stated : ∀ key v, user.find? key = some v → ¬ SecretDue user s key → s.find? key = some v
  jwtSecret : SecretDue user s "jwtSecretKey" →
    s.find? "jwtSecretKey" = some (.text secrets.jwtSecret)
  rememberMe : SecretDue user s "rememberMeKey" →
    s.find? "rememberMeKey" = some (.text secrets.rememberMeKey)
  default : ∀ key v, (key, v) ∈ baseDefaults ++ lateDefaults → key ∉ user.keys →
    key ≠ "packageFolder" → key ≠ "skipClient" → s.find? key = some v
  packageFolder : "packageFolder" ∉ user.keys →
    ∀ name, s.find? "packageName" = some (.text name) → name ≠ "" →
      ∃ folder, s.find? "packageFolder" = some (.text folder) ∧
        folder.toList = name.toList.map fun c => if c = '.' then '/' else c
  unnamedFolder : "packageFolder" ∉ user.keys →
    (∀ name, s.find? "packageName" = some (.text name) → name = "") →
      s.find? "packageFolder" = some (.text "com/mycompany/myapp")
  skipClient : "skipClient" ∉ user.keys → ∃ skipped,
    s.find? "skipClient" = some (.bool skipped) ∧
      (skipped = true ↔ s.find? "applicationType" = some (.text "microservice") ∨
        s.find? "applicationType" = some (.text "uaa"))

theorem find?_withDefaults (secrets : Secrets) (user : Settings) (key : String) :
    (user.withDefaults secrets).find? key =
      if user.dueSecret? user.followed = some key then some (.text (secretFor secrets key))
      else user.followed.find? key := by
  rw [← dueSecret?_followed]
  exact find?_withSecret secrets user.followed key

theorem find?_withDefaults_of_ne (secrets : Secrets) (user : Settings) {key : String}
    (hjwt : key ≠ jwtSecretKey) (hsession : key ≠ rememberMeKey) :
    (user.withDefaults secrets).find? key = user.followed.find? key :=
  find?_withSecret_of_ne secrets user.followed hjwt hsession

/-- Under other keys stands what the user says or else the default. -/
theorem find?_withDefaults_plain (secrets : Secrets) (user : Settings) {key : String}
    (h : key ∉ followingKeys) :
    (user.withDefaults secrets).find? key =
      (user.find? key).or (Table.lookup key (baseDefaults ++ lateDefaults)) := by
  simp only [followingKeys, List.mem_cons, List.not_mem_nil, or_false, not_or] at h
  rw [find?_withDefaults_of_ne secrets user h.2.2.1 h.2.2.2, find?_followed h.1 h.2.1]

theorem dueSecret?_withDefaults (secrets : Secrets) (user : Settings) :
    user.dueSecret? (user.withDefaults secrets) = user.dueSecret? user.followed := by
  have hsecret : (user.withDefaults secrets).secretKey? = user.followed.secretKey? :=
    secretKey?_congr (find?_withDefaults_of_ne secrets user (by decide) (by decide))
  rw [dueSecret?, dueSecret?, hsecret]

theorem find?_secret {key : String} (h : SecretDue user (user.withDefaults secrets) key) :
    (user.withDefaults secrets).find? key = some (.text (secretFor secrets key)) := by
  have hdue : user.dueSecret? user.followed = some key :=
    dueSecret?_withDefaults secrets user ▸ dueSecret?_eq_some_iff.mpr h
  rw [find?_withDefaults, if_pos hdue]

theorem find?_packageFolder_of_unstated (h : "packageFolder" ∉ user.keys) :
    (user.withDefaults secrets).find? "packageFolder" = some (.text
      (((user.withDefaults secrets).text? "packageName").elim "com/mycompany/myapp" folderOf)) := by
  have hname : (user.withDefaults secrets).text? "packageName" =
      user.followed.text? "packageName" :=
    text?_congr (find?_withDefaults_of_ne _ _ (by decide) (by decide))
  rw [find?_withDefaults_of_ne _ _ (by decide) (by decide), hname, find?_followed_packageFolder h]

theorem find?_skipClient_of_unstated (h : "skipClient" ∉ user.keys) :
    (user.withDefaults secrets).find? "skipClient" =
      some (.bool (user.withDefaults secrets).isHeadless) := by
  have hheadless : (user.withDefaults secrets).isHeadless = user.followed.isHeadless :=
    isHeadless_congr (find?_withDefaults_of_ne _ _ (by decide) (by decide))
  rw [find?_withDefaults_of_ne _ _ (by decide) (by decide), hheadless, find?_followed_skipClient h]

theorem completed_withDefaults (secrets : Secrets) (user : Settings) :
    Completed secrets user (user.withDefaults secrets) where
  keys := by
    have hkeys := keys_withSecret secrets user.followed
    rw [dueSecret?_followed, ← dueSecret?_withDefaults secrets, keys_followed, toList_dueSecret?,
      List.filter_filter] at hkeys
    calc (user.withDefaults secrets).keys
        = (withSecret secrets user.followed).keys := rfl
      _ = _ := by simp [hkeys, and_comm]
  stated := by
    intro key v hv hdue
    rw [← dueSecret?_eq_some_iff, dueSecret?_withDefaults] at hdue
    rw [find?_withDefaults, if_neg hdue, find?_followed_of_stated hv]
  jwtSecret := find?_secret
  rememberMe := find?_secret
  default := by
    intro key v hv hkey hfolder hclient
    have hplain : ∀ k ∈ (baseDefaults ++ lateDefaults).map Prod.fst,
        k ≠ jwtSecretKey ∧ k ≠ rememberMeKey := by decide
    have hfollowing : key ∉ followingKeys := by
      simp [followingKeys, hfolder, hclient, hplain key (List.mem_map_of_mem hv)]
    have hnone : user.find? key = none := Table.lookup_eq_none_iff.mpr hkey
    rw [find?_withDefaults_plain secrets user hfollowing, hnone]
    exact Table.lookup_of_mem (by decide) hv
  packageFolder := by
    intro hkey name hname hfilled
    have htext : (user.withDefaults secrets).text? "packageName" = some name :=
      text?_eq_some.mpr ⟨hname, hfilled⟩
    refine ⟨folderOf name, ?_, String.toList_ofList⟩
    rw [find?_packageFolder_of_unstated hkey, htext]
    rfl
  unnamedFolder := by
    intro hkey hunnamed
    have htext : (user.withDefaults secrets).text? "packageName" = none := by
      refine Option.eq_none_iff_forall_ne_some.mpr fun name hname => ?_
      obtain ⟨hfound, hfilled⟩ := text?_eq_some.mp hname
      exact hfilled (hunnamed name hfound)
    rw [find?_packageFolder_of_unstated hkey, htext]
    rfl
  skipClient := fun hkey => ⟨_, find?_skipClient_of_unstated hkey, isHeadless_iff⟩

/-! ## Settings that were completed before -/

/-- Nothing is left to add to settings: the default keys are there, with those of the base first,
and so is the secret that is needed. -/
structure Complete (s : Settings) : Prop where
  base : ∃ rest, s.keys = baseKeys ++ rest
  late : ∀ key ∈ lateKeys, key ∈ s.keys
  secret : ∀ key, s.secretKey? = some key → s.holds key = true

theorem Completed.secret_given (h : Completed secrets user s) {key : String}
    (hdue : SecretDue user s key) : ∃ secret, s.find? key = some (.text secret) := by
  rcases hdue.1 with ⟨-, rfl⟩ | ⟨-, rfl⟩
  · exact ⟨_, h.jwtSecret hdue⟩
  · exact ⟨_, h.rememberMe hdue⟩

theorem Completed.complete (h : Completed secrets user s) : s.Complete where
  base := by
    rw [h.keys, listedKeys, List.append_assoc, List.append_assoc]
    exact ⟨_, rfl⟩
  late := by
    intro key hkey
    rw [h.keys, listedKeys]
    by_cases huser : key ∈ user.keys
    · by_cases hbase : key ∈ baseKeys
      · simp [hbase]
      · simp [huser, hbase]
    · simp [huser, hkey]
  secret := by
    intro key hkey
    by_contra hlacking
    rw [Bool.not_eq_true, holds_eq_false_iff] at hlacking
    by_cases hgiven : ∀ v ∈ user.find? key, v = .null
    · obtain ⟨secret, hsecret⟩ := h.secret_given ⟨secretKey?_eq_some_iff.mp hkey, hgiven⟩
      exact absurd (hlacking _ hsecret) (by simp)
    · obtain ⟨v, hv, hfilled⟩ : ∃ v ∈ user.find? key, v ≠ .null := by simpa using hgiven
      have hkept := h.stated key v hv fun hdue => hgiven hdue.2
      exact hfilled (hlacking v hkept)

theorem Complete.merged_eq (h : s.Complete) : s.merged = s := by
  obtain ⟨rest, hrest⟩ := h.base
  have hkeys : s.merged.keys = s.keys := by
    have hfresh : ∀ key ∈ rest, key ∉ baseKeys := by
      have hdistinct : (baseKeys ++ rest).Nodup := hrest ▸ s.distinct
      exact fun key hkey hbase => (List.nodup_append.mp hdistinct).2.2 key hbase key hkey rfl
    have hlate : lateKeys.filter (· ∉ s.keys) = [] :=
      List.filter_eq_nil_iff.mpr fun key hkey => by simp [h.late key hkey]
    have hothers : s.keys.filter (· ∉ baseKeys) = rest := by
      rw [hrest, List.filter_append, List.filter_eq_nil_iff.mpr (by simp), List.nil_append]
      exact List.filter_eq_self.mpr fun key hkey => by simp [hfresh key hkey]
    rw [keys_merged, listedKeys, hlate, hothers, List.append_nil, hrest]
  -- every key is stated, so no default is looked at
  refine Table.ext_find? hkeys fun key hkey => ?_
  obtain ⟨v, hv⟩ := (Table.mem_keys_iff s key).mp (hkeys ▸ hkey)
  rw [find?_merged, hv, Option.some_or]

/-- Complete settings are those of a new application already. -/
theorem Complete.withDefaults_eq (h : s.Complete) (secrets : Secrets) :
    s.withDefaults secrets = s := by
  have hbase : ∀ key ∈ baseKeys, s.contains key = true := by
    obtain ⟨rest, hrest⟩ := h.base
    intro key hkey
    exact Table.contains_iff.mpr (hrest ▸ List.mem_append_left rest hkey)
  have hfolder : withPackageFolder s s = s := by
    rw [withPackageFolder, if_pos (hbase _ (by decide))]
  have hclient : withClientChoice s s = s := by
    rw [withClientChoice, hbase _ (by decide)]
    rfl
  have hsecret : withSecret secrets s = s := by
    unfold withSecret
    split
    · next key hkey => rw [if_pos (h.secret key hkey)]
    · rfl
  calc s.withDefaults secrets
      = withSecret secrets (withClientChoice s (withPackageFolder s s.merged)) := rfl
    _ = s := by rw [h.merged_eq, hfolder, hclient, hsecret]

/-- A new application completes the settings of the user, and what it has is not completed any
further, whichever secrets are drawn. -/
theorem withDefaults_completes (secrets : Secrets) (user : Settings) :
    Completed secrets user (user.withDefaults secrets) ∧
      ∀ secrets', (user.withDefaults secrets).withDefaults secrets' = user.withDefaults secrets :=
  ⟨completed_withDefaults secrets user,
    (completed_withDefaults secrets user).complete.withDefaults_eq⟩

end Settings
end DomainModel
