import DomainModel.Json.Source
import DomainModel.Proofs.Json.Scalars
/-!
# The text of a value is read back

The characters of a value have the tokens of the value, and these have a tree that denotes it,
provided that its numbers can be printed and it is not nested too deeply.
-/
namespace DomainModel
namespace Json

mutual

/-- Values with at most this many nested lists and records, whose scalars can be printed. -/
def Printable (depth : Nat) : Json → Prop
  | .scalar s => s.Printable
  | .list items => 0 < depth ∧ PrintableItems (depth - 1) items
  | .record entries => 0 < depth ∧ PrintableEntries (depth - 1) entries

def PrintableItems (depth : Nat) : List Json → Prop
  | [] => True
  | v :: rest => Printable depth v ∧ PrintableItems depth rest

def PrintableEntries (depth : Nat) : List (String × Json) → Prop
  | [] => True
  | (_, v) :: rest => Printable depth v ∧ PrintableEntries depth rest

end

mutual

def tokens : Json → List JsonToken
  | .scalar s => [.scalar s]
  | .list [] => [.mark '[', .mark ']']
  | .list (v :: rest) => .mark '[' :: (tokens v ++ (itemsTokens rest ++ [.mark ']']))
  | .record [] => [.mark '\x7b', .mark '\x7d']
  | .record ((k, v) :: rest) =>
    .mark '\x7b' :: .scalar (.text k) :: .mark ':' ::
      (tokens v ++ (entriesTokens rest ++ [.mark '\x7d']))

/-- The items after the first, each with its comma. -/
def itemsTokens : List Json → List JsonToken
  | [] => []
  | v :: rest => .mark ',' :: (tokens v ++ itemsTokens rest)

def entriesTokens : List (String × Json) → List JsonToken
  | [] => []
  | (k, v) :: rest =>
    .mark ',' :: .scalar (.text k) :: .mark ':' :: (tokens v ++ entriesTokens rest)

end

theorem printableItems_iff {depth : Nat} {items : List Json} :
    PrintableItems depth items ↔ ∀ v ∈ items, v.Printable depth := by
  induction items with
  | nil => simp [PrintableItems]
  | cons v rest ih => simp [PrintableItems, ih]

theorem printableEntries_iff {depth : Nat} {entries : List (String × Json)} :
    PrintableEntries depth entries ↔ ∀ e ∈ entries, e.2.Printable depth := by
  induction entries with
  | nil => simp [PrintableEntries]
  | cons e rest ih =>
    obtain ⟨k, v⟩ := e
    simp [PrintableEntries, ih]

section Characters
open JsonToken
variable {layout : Layout} {rest : List Char} {after : List JsonToken}

private theorem endsValue_lineBreak (layout : Layout) (rest : List Char) (level : Nat) {c : Char}
    (hc : c ∈ [',', ']', '\x7d']) :
    EndsValue (lineBreak layout level ++ c :: rest) := by
  intro d hd
  cases layout with
  | none =>
    obtain rfl : c = d := by simpa [lineBreak] using hd
    exact List.mem_cons_of_mem _ hc
  | some width =>
    obtain rfl : '\n' = d := by simpa [lineBreak] using hd
    exact List.mem_cons_self

private theorem endsValue_items (level : Nat) (items : List Json) (h : EndsValue rest) :
    EndsValue (itemsChars layout level items ++ rest) := by
  cases items with
  | nil => exact h
  | cons v items =>
    intro d hd
    obtain rfl : ',' = d := by simpa [itemsChars] using hd
    simp

private theorem endsValue_entries (level : Nat) (entries : List (String × Json))
    (h : EndsValue rest) : EndsValue (entriesChars layout level entries ++ rest) := by
  cases entries with
  | nil => exact h
  | cons e entries =>
    intro d hd
    obtain rfl : ',' = d := by simpa [entriesChars] using hd
    simp

mutual

theorem spells_chars : ∀ (v : Json) (level : Nat) {depth : Nat} {rest : List Char}
    {after : List JsonToken}, v.Printable depth → EndsValue rest → Spells rest after →
    Spells (chars layout level v ++ rest) (v.tokens ++ after)
  | .scalar s, _, _, _, _, hv, hends, h => h.scalar hends hv
  | .list [], _, _, _, _, _, _, h => (h.mark (c := ']') rfl).mark (c := '[') rfl
  | .list (v :: items), level, _, rest, after, hv, _, h => by
    have hclose := (h.mark (c := ']') rfl).lineBreak layout level
    have hends := endsValue_lineBreak layout rest level (c := ']') (by simp)
    have hitems := spells_items items (level + 1) hv.2.2 hends hclose
    have hfirst := spells_chars v (level + 1) hv.2.1 (endsValue_items _ items hends) hitems
    simpa [chars, tokens] using (hfirst.lineBreak layout (level + 1)).mark (c := '[') rfl
  | .record [], _, _, _, _, _, _, h => (h.mark (c := '\x7d') rfl).mark (c := '\x7b') rfl
  | .record ((k, v) :: entries), level, _, rest, after, hv, _, h => by
    have hclose := (h.mark (c := '\x7d') rfl).lineBreak layout level
    have hends := endsValue_lineBreak layout rest level (c := '\x7d') (by simp)
    have hentries := spells_entries entries (level + 1) hv.2.2 hends hclose
    have hfirst := spells_chars v (level + 1) hv.2.1 (endsValue_entries _ entries hends)
      hentries
    have hkey := ((hfirst.colon layout).quoted k).lineBreak layout (level + 1)
    simpa [chars, tokens] using hkey.mark (c := '\x7b') rfl

theorem spells_items : ∀ (items : List Json) (level : Nat) {depth : Nat} {rest : List Char}
    {after : List JsonToken}, PrintableItems depth items → EndsValue rest → Spells rest after →
    Spells (itemsChars layout level items ++ rest) (itemsTokens items ++ after)
  | [], _, _, _, _, _, _, h => h
  | v :: items, level, _, _, _, hv, hends, h => by
    have hitems := spells_items items level hv.2 hends h
    have hfirst := spells_chars v level hv.1 (endsValue_items _ items hends) hitems
    simpa [itemsChars, itemsTokens] using (hfirst.lineBreak layout level).mark (c := ',') rfl

theorem spells_entries : ∀ (entries : List (String × Json)) (level : Nat) {depth : Nat}
    {rest : List Char} {after : List JsonToken}, PrintableEntries depth entries → EndsValue rest →
    Spells rest after →
    Spells (entriesChars layout level entries ++ rest) (entriesTokens entries ++ after)
  | [], _, _, _, _, _, _, h => h
  | (k, v) :: entries, level, _, _, _, hv, hends, h => by
    have hentries := spells_entries entries level hv.2 hends h
    have hfirst := spells_chars v level hv.1 (endsValue_entries _ entries hends) hentries
    have hkey := ((hfirst.colon layout).quoted k).lineBreak layout level
    simpa [entriesChars, entriesTokens] using hkey.mark (c := ',') rfl

end

end Characters

section Trees
open JsonSource

section Opening
variable {fuel depth : Nat} {first : JsonToken} {more rest : List JsonToken}

private theorem ofTokens_list {items : List JsonSource} (hdepth : 0 < depth)
    (hfirst : first ≠ .mark ']')
    (h : itemsOfTokens fuel (depth - 1) (first :: more) = some (items, rest)) :
    ofTokens (fuel + 1) depth (.mark '[' :: first :: more) = some (.list items, rest) := by
  have hwithin : within depth (.list items) = .list items := if_neg (by omega)
  rw [ofTokens, h]
  · change some (within depth (.list items), rest) = _
    rw [hwithin]
  · intro others heq
    exact hfirst (List.cons.inj heq).1

private theorem ofTokens_record {key : String} {entries : List (Option String × JsonSource)}
    (hdepth : 0 < depth)
    (h : entriesOfTokens fuel (depth - 1) (.scalar (.text key) :: more) = some (entries, rest)) :
    ofTokens (fuel + 1) depth (.mark '\x7b' :: .scalar (.text key) :: more) =
      some (.record entries, rest) := by
  have hwithin : within depth (.record entries) = .record entries := if_neg (by omega)
  rw [ofTokens, h]
  · change some (within depth (.record entries), rest) = _
    rw [hwithin]
  · intro others heq
    simp at heq

end Opening

private theorem tokens_head (v : Json) :
    ∃ first more, v.tokens = first :: more ∧ first ≠ .mark ']' := by
  rcases v with s | (_ | ⟨v, items⟩) | (_ | ⟨⟨k, v⟩, entries⟩) <;> exact ⟨_, _, rfl, by simp⟩

mutual

/-- The tokens of a value have a tree that denotes it; their number is fuel enough. -/
theorem ofTokens_tokens : ∀ (v : Json) (fuel : Nat) {depth : Nat} (rest : List JsonToken),
    v.Printable depth → v.tokens.length ≤ fuel →
    ∃ t, ofTokens fuel depth (v.tokens ++ rest) = some (t, rest) ∧ t.toJson? = some v
  | .scalar s, _, _, _, _, _ => ⟨.scalar s, by simp [tokens, ofTokens], rfl⟩
  | .list [], _, depth, _, hv, _ => by
    have hdepth : depth ≠ 0 := Nat.pos_iff_ne_zero.mp hv.1
    exact ⟨.list [], by simp [tokens, ofTokens, within, hdepth], rfl⟩
  | .list (v :: items), fuel, depth, rest, hv, hfuel => by
    simp only [tokens, List.length_cons, List.length_append, List.length_nil] at hfuel
    obtain ⟨f, rfl⟩ : ∃ f, fuel = f + 2 := ⟨fuel - 2, by omega⟩
    have hfirst := fun r => ofTokens_tokens v f r hv.2.1 (by omega)
    obtain ⟨ts, hts, hvalues⟩ := itemsOfTokens_tokens items rest hfirst hv.2.2 (by omega)
    refine ⟨.list ts, ?_, by simp [toJson?, hvalues]⟩
    obtain ⟨first, more, hhead, hne⟩ := tokens_head v
    rw [hhead] at hts
    simpa [tokens, hhead] using ofTokens_list hv.1 hne hts
  | .record [], _, depth, _, hv, _ => by
    have hdepth : depth ≠ 0 := Nat.pos_iff_ne_zero.mp hv.1
    exact ⟨.record [], by simp [tokens, ofTokens, within, hdepth], rfl⟩
  | .record ((k, v) :: entries), fuel, depth, rest, hv, hfuel => by
    simp only [tokens, List.length_cons, List.length_append, List.length_nil] at hfuel
    obtain ⟨f, rfl⟩ : ∃ f, fuel = f + 2 := ⟨fuel - 2, by omega⟩
    have hfirst := fun r => ofTokens_tokens v f r hv.2.1 (by omega)
    obtain ⟨ts, hts, hvalues⟩ := entriesOfTokens_tokens k entries rest hfirst hv.2.2 (by omega)
    refine ⟨.record ts, ?_, by simp [toJson?, hvalues]⟩
    simpa [tokens] using ofTokens_record hv.1 hts

theorem itemsOfTokens_tokens : ∀ (items : List Json) {v : Json} {fuel depth : Nat}
    (rest : List JsonToken),
    (∀ r, ∃ t, ofTokens fuel depth (v.tokens ++ r) = some (t, r) ∧ t.toJson? = some v) →
    PrintableItems depth items → (itemsTokens items).length ≤ fuel →
    ∃ ts, itemsOfTokens (fuel + 1) depth (v.tokens ++ (itemsTokens items ++ .mark ']' :: rest)) =
      some (ts, rest) ∧ itemsToJson? ts = some (v :: items)
  | [], v, fuel, depth, rest, hfirst, _, _ => by
    obtain ⟨t, ht, hvalue⟩ := hfirst (.mark ']' :: rest)
    exact ⟨[t], by simp [itemsTokens, itemsOfTokens, ht], by simp [itemsToJson?, hvalue]⟩
  | w :: items, v, fuel, depth, rest, hfirst, hitems, hfuel => by
    simp only [itemsTokens, List.length_cons, List.length_append] at hfuel
    obtain ⟨f, rfl⟩ : ∃ f, fuel = f + 1 := ⟨fuel - 1, by omega⟩
    obtain ⟨t, ht, hvalue⟩ := hfirst (itemsTokens (w :: items) ++ .mark ']' :: rest)
    have hnext := fun r => ofTokens_tokens w f r hitems.1 (by omega)
    obtain ⟨ts, hts, hvalues⟩ := itemsOfTokens_tokens items rest hnext hitems.2 (by omega)
    refine ⟨t :: ts, ?_, by simp [itemsToJson?, hvalue, hvalues]⟩
    rw [itemsOfTokens, ht]
    simp [itemsTokens, hts]

theorem entriesOfTokens_tokens : ∀ (k : String) (entries : List (String × Json)) {v : Json}
    {fuel depth : Nat} (rest : List JsonToken),
    (∀ r, ∃ t, ofTokens fuel depth (v.tokens ++ r) = some (t, r) ∧ t.toJson? = some v) →
    PrintableEntries depth entries → (entriesTokens entries).length ≤ fuel →
    ∃ ts, entriesOfTokens (fuel + 1) depth (.scalar (.text k) :: .mark ':' ::
      (v.tokens ++ (entriesTokens entries ++ .mark '\x7d' :: rest))) = some (ts, rest) ∧
        entriesToJson? ts = some ((k, v) :: entries)
  | k, [], v, fuel, depth, rest, hfirst, _, _ => by
    obtain ⟨t, ht, hvalue⟩ := hfirst (.mark '\x7d' :: rest)
    exact ⟨[(some k, t)], by simp [entriesTokens, entriesOfTokens, ht],
      by simp [entriesToJson?, hvalue]⟩
  | k, (l, w) :: entries, v, fuel, depth, rest, hfirst, hentries, hfuel => by
    simp only [entriesTokens, List.length_cons, List.length_append] at hfuel
    obtain ⟨f, rfl⟩ : ∃ f, fuel = f + 1 := ⟨fuel - 1, by omega⟩
    obtain ⟨t, ht, hvalue⟩ := hfirst (entriesTokens ((l, w) :: entries) ++ .mark '\x7d' :: rest)
    have hnext := fun r => ofTokens_tokens w f r hentries.1 (by omega)
    obtain ⟨ts, hts, hvalues⟩ := entriesOfTokens_tokens l entries rest hnext hentries.2 (by omega)
    refine ⟨(some k, t) :: ts, ?_, by simp [entriesToJson?, hvalue, hvalues]⟩
    rw [entriesOfTokens]
    simp only [ht, Option.bind_eq_bind, Option.bind_some]
    simp [entriesTokens, hts]

end

end Trees

/-- A value that can be printed is what its text denotes, however the text is laid out. -/
theorem parse_chars {v : Json} (h : v.Printable JsonSource.maxDepth) (layout : Layout) :
    Json.parse (String.ofList (v.chars layout 0)) = some v := by
  have hends : JsonToken.EndsValue [] := by simp [JsonToken.EndsValue]
  have hspells : JsonToken.Spells (v.chars layout 0 ++ []) (v.tokens ++ []) :=
    spells_chars v 0 h hends JsonToken.spells_nil
  have htokens := hspells (v.chars layout 0).length (by simp)
  rw [List.append_nil, List.append_nil] at htokens
  obtain ⟨t, ht, hvalue⟩ := ofTokens_tokens v (2 * v.tokens.length) [] h (by omega)
  rw [List.append_nil] at ht
  simp [Json.parse, JsonSource.parse, JsonToken.ofChars, htokens, ht, hvalue]

end Json
end DomainModel
