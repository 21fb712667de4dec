import DomainModel.Document.Comments
import Mathlib.Data.List.Basic
import Mathlib.Data.List.Induction
/-!
# Which comment a field receives

The body of an entity is passed over once, with one comment waiting and a note of the separators.
What this gives a field can be told from the body as a whole: the first comment that aims at it. A
trailing comment aims at the field before it, unless a separator lies between the two or there is
no such field; every other comment aims at the field after it.
-/
namespace DomainModel

section Targets
variable (body : List BodyItem)

/-- The fields of a body in order, each with its position. -/
def fieldPlaces : List (DeclaredField × Nat) :=
  body.zipIdx.filterMap fun
    | (.field f, i) => some (f, i)
    | _ => none

/-- The nearest field before a position. -/
def precedingField? (k : Nat) : Option Nat :=
  ((fieldPlaces body).filter fun x => x.2 < k).getLast?.map Prod.snd

/-- The nearest field after a position. -/
def followingField? (k : Nat) : Option Nat :=
  ((fieldPlaces body).find? fun x => k < x.2).map Prod.snd

/-- The nearest field before a position, if no separator lies between them. -/
def attachedField? (k : Nat) : Option Nat :=
  (precedingField? body k).filter fun i => .separator ∉ (body.take k).drop (i + 1)

/-- The field that a comment at a position aims at. -/
def commentTarget? (k : Nat) : CommentForm → Option Nat
  | .leading => followingField? body k
  | .trailing => (attachedField? body k).or (followingField? body k)

/-- The texts of the comments with this target, in order. -/
def commentsOn (target : Option Nat) : List String :=
  body.zipIdx.filterMap fun
    | (.comment text form, k) => if commentTarget? body k form = target then some text else none
    | _ => none

/-- The fields of a body, each with the first comment that aims at it. -/
def describedFields : List (DeclaredField × Option String) :=
  (fieldPlaces body).map fun x => (x.1, (commentsOn body (some x.2)).head?)

end Targets

section Growth
variable {body : List BodyItem} {item : BodyItem} {k : Nat}

/-- The field that an item at the end of a body is, with its position. -/
private def placed (body : List BodyItem) : BodyItem → Option (DeclaredField × Nat)
  | .field f => some (f, body.length)
  | _ => none

private theorem fieldPlaces_concat :
    fieldPlaces (body ++ [item]) = fieldPlaces body ++ (placed body item).toList := by
  cases item <;> simp [fieldPlaces, placed, List.zipIdx_append]

private theorem place_lt {x : DeclaredField × Nat} (hx : x ∈ fieldPlaces body) :
    x.2 < body.length := by
  obtain ⟨⟨item, i⟩, hmem, hplace⟩ := List.mem_filterMap.mp hx
  have hi := (List.getElem?_eq_some_iff.mp (List.mem_zipIdx_iff_getElem?.mp hmem)).1
  cases item with
  | field f => exact Option.some.inj hplace ▸ hi
  | comment text form => simp at hplace
  | separator => simp at hplace

private theorem precedingField?_end :
    precedingField? body body.length = (fieldPlaces body).getLast?.map Prod.snd := by
  rw [precedingField?, List.filter_eq_self.mpr fun x hx => by simpa using place_lt hx]

private theorem followingField?_end (hk : body.length ≤ k + 1) : followingField? body k = none := by
  have hnone : (fieldPlaces body).find? (fun x => k < x.2) = none := by
    refine List.find?_eq_none.mpr fun x hx => ?_
    have hlt := place_lt hx
    simp only [decide_eq_true_eq]
    omega
  rw [followingField?, hnone]
  rfl

private theorem attachedField?_concat (hk : k ≤ body.length) :
    attachedField? (body ++ [item]) k = attachedField? body k := by
  have hplaces : (fieldPlaces (body ++ [item])).filter (fun x => x.2 < k) =
      (fieldPlaces body).filter fun x => x.2 < k := by
    cases item <;> simp [fieldPlaces_concat, placed, hk]
  rw [attachedField?, attachedField?, precedingField?, precedingField?, hplaces,
    List.take_append_of_le_length hk]

private theorem followingField?_concat (hk : k < body.length) :
    followingField? (body ++ [item]) k =
      (followingField? body k).or ((placed body item).map Prod.snd) := by
  rw [followingField?, followingField?, fieldPlaces_concat, List.find?_append]
  cases hfind : (fieldPlaces body).find? fun x => k < x.2 with
  | some x => simp
  | none => cases item <;> simp [placed, hk]

private theorem commentTarget?_concat (hk : k < body.length) (form : CommentForm) :
    commentTarget? (body ++ [item]) k form =
      (commentTarget? body k form).or ((placed body item).map Prod.snd) := by
  cases form with
  | leading => exact followingField?_concat hk
  | trailing =>
    rw [commentTarget?, commentTarget?, attachedField?_concat (Nat.le_of_lt hk),
      followingField?_concat hk, Option.or_assoc]

/-- At the end of a body only a trailing comment has a target, the attached field. -/
private def endTarget? (body : List BodyItem) (form : CommentForm) : Option Nat :=
  if form = .trailing then attachedField? body body.length else none

private theorem commentTarget?_end (form : CommentForm) :
    commentTarget? (body ++ [item]) body.length form = endTarget? body form := by
  have hnone : followingField? (body ++ [item]) body.length = none :=
    followingField?_end (by simp)
  cases form <;> simp [commentTarget?, attachedField?_concat, hnone, endTarget?]

private theorem target_lt {form : CommentForm} {i : Nat}
    (h : commentTarget? body k form = some i) : i < body.length := by
  have hplaces : ∀ x : Option (DeclaredField × Nat), (∀ y ∈ x, y ∈ fieldPlaces body) →
      x.map Prod.snd = some i → i < body.length := by
    intro x hx hi
    obtain ⟨y, hy, rfl⟩ := Option.map_eq_some_iff.mp hi
    exact place_lt (hx y hy)
  have hfollowing : followingField? body k = some i → i < body.length :=
    hplaces _ fun y hy => List.mem_of_find?_eq_some hy
  cases form with
  | leading => exact hfollowing h
  | trailing =>
    rcases Option.or_eq_some_iff.mp h with hattached | ⟨-, h⟩
    · obtain ⟨hpreceding, -⟩ := Option.filter_eq_some_iff.mp hattached
      refine hplaces _ (fun y hy => ?_) hpreceding
      exact (List.mem_filter.mp (List.mem_of_getLast? hy)).1
    · exact hfollowing h

/-- What an item at the end of a body adds to the comments with a target. -/
private def newComment (body : List BodyItem) (target : Option Nat) : BodyItem → List String
  | .comment text form => if endTarget? body form = target then [text] else []
  | _ => []

private theorem commentsOn_concat {target before : Option Nat}
    (h : ∀ k < body.length, ∀ form,
      commentTarget? (body ++ [item]) k form = target ↔ commentTarget? body k form = before) :
    commentsOn (body ++ [item]) target = commentsOn body before ++ newComment body target item := by
  rw [commentsOn, commentsOn, List.zipIdx_append, List.filterMap_append]
  congr 1
  · refine List.filterMap_congr ?_
    rintro ⟨x, k⟩ hx
    have hk := (List.getElem?_eq_some_iff.mp (List.mem_zipIdx_iff_getElem?.mp hx)).1
    cases x <;> simp [h k hk]
  · cases item with
    | comment text form =>
      simp only [List.zipIdx_singleton, List.filterMap_cons, List.filterMap_nil, Nat.zero_add,
        commentTarget?_end, newComment]
      split <;> simp_all
    | field f => rfl
    | separator => rfl

private theorem commentsOn_new (f : DeclaredField) :
    commentsOn (body ++ [.field f]) (some body.length) = commentsOn body none := by
  refine (commentsOn_concat fun k hk form => ?_).trans (List.append_nil _)
  rw [commentTarget?_concat hk]
  cases htarget : commentTarget? body k form with
  | none => simp [placed]
  | some i => simpa [placed] using Nat.ne_of_lt (target_lt htarget)

private theorem commentsOn_none (f : DeclaredField) :
    commentsOn (body ++ [.field f]) none = [] := by
  rw [commentsOn, List.zipIdx_append, List.filterMap_append, List.append_eq_nil_iff]
  refine ⟨List.filterMap_eq_nil_iff.mpr ?_, rfl⟩
  rintro ⟨x, k⟩ hx
  have hk := (List.getElem?_eq_some_iff.mp (List.mem_zipIdx_iff_getElem?.mp hx)).1
  cases x <;> simp [commentTarget?_concat hk, placed]

private theorem commentsOn_old (f : DeclaredField) {i : Nat} (hi : i < body.length) :
    commentsOn (body ++ [.field f]) (some i) = commentsOn body (some i) := by
  refine (commentsOn_concat fun k hk form => ?_).trans (List.append_nil _)
  rw [commentTarget?_concat hk]
  cases htarget : commentTarget? body k form with
  | none => simpa [placed] using (Nat.ne_of_lt hi).symm
  | some j => simp

private theorem commentsOn_other (hitem : placed body item = none) (target : Option Nat) :
    commentsOn (body ++ [item]) target = commentsOn body target ++ newComment body target item :=
  commentsOn_concat fun k hk form => by
    rw [commentTarget?_concat hk, hitem, Option.map_none, Option.or_none]

private theorem describedFields_field (f : DeclaredField) :
    describedFields (body ++ [.field f]) =
      describedFields body ++ [(f, (commentsOn body none).head?)] := by
  have hold : (fieldPlaces body).map
      (fun x => (x.1, (commentsOn (body ++ [.field f]) (some x.2)).head?)) = describedFields body :=
    List.map_congr_left fun x hx => by rw [commentsOn_old f (place_lt hx)]
  rw [describedFields, fieldPlaces_concat, List.map_append, hold]
  simp [placed, commentsOn_new]

private theorem describedFields_other (hitem : placed body item = none) :
    describedFields (body ++ [item]) = (fieldPlaces body).map fun x =>
      (x.1, (commentsOn body (some x.2) ++ newComment body (some x.2) item).head?) := by
  rw [describedFields, fieldPlaces_concat, hitem, Option.toList_none, List.append_nil]
  exact List.map_congr_left fun x _ => by rw [commentsOn_other hitem]

private theorem places_increasing : ((fieldPlaces body).map Prod.snd).Pairwise (· < ·) := by
  induction body using List.reverseRecOn with
  | nil => exact List.Pairwise.nil
  | append_singleton body item ih =>
    rw [fieldPlaces_concat, List.map_append, List.pairwise_append]
    refine ⟨ih, by cases item <;> simp [placed], ?_⟩
    intro i hi j hj
    obtain ⟨x, hx, rfl⟩ := List.mem_map.mp hi
    cases item with
    | field f => simpa [placed, List.mem_singleton.mp hj] using place_lt hx
    | comment text form => simp [placed] at hj
    | separator => simp [placed] at hj

private theorem attachedField?_end : attachedField? body body.length =
    ((fieldPlaces body).getLast?.map Prod.snd).filter fun i => .separator ∉ body.drop (i + 1) := by
  rw [attachedField?, precedingField?_end, List.take_length]

private theorem attachedField?_field (f : DeclaredField) :
    attachedField? (body ++ [.field f]) (body ++ [BodyItem.field f]).length =
      some body.length := by
  rw [attachedField?_end, fieldPlaces_concat]
  simp [placed]

private theorem attachedField?_other (hitem : placed body item = none) :
    attachedField? (body ++ [item]) (body ++ [item]).length =
      if item = .separator then none else attachedField? body body.length := by
  rw [attachedField?_end, attachedField?_end, fieldPlaces_concat, hitem, Option.toList_none,
    List.append_nil]
  cases hlast : (fieldPlaces body).getLast? with
  | none => simp
  | some x =>
    have hx : x.2 + 1 ≤ body.length := place_lt (List.mem_of_getLast? hlast)
    rw [Option.map_some, Option.filter_some, Option.filter_some, List.drop_append_of_le_length hx]
    by_cases hseparator : item = .separator
    · simp [hseparator]
    · simp [hseparator, Ne.symm hseparator]

private theorem fieldPlaces_of_attached {i : Nat} (h : attachedField? body body.length = some i) :
    ∃ before f, fieldPlaces body = before ++ [(f, i)] ∧ ∀ x ∈ before, x.2 ≠ i := by
  obtain ⟨hlast, -⟩ := Option.filter_eq_some_iff.mp h
  rw [precedingField?_end] at hlast
  obtain ⟨⟨f, j⟩, hget, rfl⟩ := Option.map_eq_some_iff.mp hlast
  obtain ⟨before, hbefore⟩ := List.getLast?_eq_some_iff.mp hget
  refine ⟨before, f, hbefore, fun x hx => Nat.ne_of_lt ?_⟩
  have hincreasing : ((fieldPlaces body).map Prod.snd).Pairwise (· < ·) := places_increasing
  rw [hbefore, List.map_append, List.pairwise_append] at hincreasing
  exact hincreasing.2.2 x.2 (List.mem_map_of_mem hx) j (by simp)

end Growth

namespace CommentState

private theorem describeLast_concat (text : String) (l : List (DeclaredField × Option String))
    (f : DeclaredField) (c : Option String) :
    describeLast text (l ++ [(f, c)]) = l ++ [(f, c <|> some text)] := by
  induction l with
  | nil => rfl
  | cons x rest ih =>
    cases rest with
    | nil => rfl
    | cons y rest => simpa [describeLast] using ih

/-- What is to be known of a body once it is read. -/
def after (body : List BodyItem) : CommentState :=
  ⟨describedFields body, (commentsOn body none).head?, (attachedField? body body.length).isNone⟩

private theorem describedFields_attached {body : List BodyItem} {text : String} {i : Nat}
    (h : attachedField? body body.length = some i) :
    describedFields (body ++ [.comment text .trailing]) =
      describeLast text (describedFields body) := by
  obtain ⟨before, f, hplaces, hne⟩ := fieldPlaces_of_attached h
  have hnew : ∀ j, newComment body (some j) (.comment text .trailing) =
      if i = j then [text] else [] := by
    intro j
    simp [newComment, endTarget?, h]
  have hbefore : ∀ x ∈ before, (x.1, (commentsOn body (some x.2) ++
      newComment body (some x.2) (.comment text .trailing)).head?) =
        (x.1, (commentsOn body (some x.2)).head?) := by
    intro x hx
    rw [hnew, if_neg (hne x hx).symm, List.append_nil]
  rw [describedFields_other rfl, describedFields, hplaces, List.map_append, List.map_append,
    List.map_congr_left hbefore]
  simp [describeLast_concat, hnew]

private theorem describedFields_waiting {body : List BodyItem} {form : CommentForm} (text : String)
    (h : endTarget? body form = none) :
    describedFields (body ++ [.comment text form]) = describedFields body ∧
      commentsOn (body ++ [.comment text form]) none = commentsOn body none ++ [text] := by
  have hnew : ∀ target, newComment body target (.comment text form) =
      if target = none then [text] else [] := by
    intro target
    simp [newComment, h, eq_comm]
  constructor
  · rw [describedFields_other rfl, describedFields]
    simp [hnew]
  · rw [commentsOn_other rfl, hnew, if_pos rfl]

private theorem step_after (body : List BodyItem) (item : BodyItem) :
    (after body).step item = after (body ++ [item]) := by
  cases item with
  | field f =>
    rw [after, after, describedFields_field, commentsOn_none, attachedField?_field]
    rfl
  | separator =>
    rw [after, after, attachedField?_other rfl, describedFields_other rfl, commentsOn_other rfl]
    simp [step, newComment, describedFields]
  | comment text form =>
    rw [after, after, attachedField?_other rfl, if_neg (by simp)]
    cases htarget : endTarget? body form with
    | none =>
      obtain ⟨hfields, hcomments⟩ := describedFields_waiting text htarget
      have hfree : ¬ (form = .trailing ∧ (attachedField? body body.length).isNone = false) := by
        rintro ⟨rfl, hsome⟩
        simp_all [endTarget?]
      rw [hfields, hcomments, step, if_neg hfree, List.head?_append]
      simp
    | some i =>
      obtain ⟨rfl, hattached⟩ : form = .trailing ∧ attachedField? body body.length = some i := by
        simpa [endTarget?] using htarget
      have hnone : newComment body none (.comment text .trailing) = [] := by
        simp [newComment, htarget]
      rw [describedFields_attached hattached, commentsOn_other rfl, hnone, List.append_nil,
        hattached]
      rfl

theorem foldl_step (body : List BodyItem) : body.foldl step start = after body := by
  induction body using List.reverseRecOn with
  | nil => rfl
  | append_singleton body item ih => rw [List.foldl_append, ih, ← step_after]; rfl

end CommentState

/-- Every field is answered once and in order, with the first comment that aims at it. -/
theorem commentedFields_eq_describedFields (body : List BodyItem) :
    commentedFields body = describedFields body :=
  congrArg CommentState.done (CommentState.foldl_step body)

/-- The comment before the first field comes first, and one after the separator is for the next. -/
example (f g : DeclaredField) :
    commentedFields [.comment "key" .leading, .field f, .comment "number" .trailing, .separator,
      .comment "name" .trailing, .field g] = [(f, some "key"), (g, some "name")] := rfl

end DomainModel
