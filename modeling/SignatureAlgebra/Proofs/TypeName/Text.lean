/-
**Type names and their text are inverse.**

A text is cut at every `::`, so the pieces put together again with `::` between them are the text, whatever
colons it has. Pieces without a colon are found again by the cut, and a piece that is not empty cannot be
mistaken for the mark of the root.

* `TypeName.intercalate_cut`, `TypeName.cut_intercalate` — cutting, and putting together.
* `TypeName.toList_text` — the text of a name is that of its segments.
* `TypeName.texts_internAll`, `TypeName.internAll_texts` — pieces and the names that they get.
* `TypeName.text_ofText` — every text is that of the name read off it, and every name with segments that
  are not empty and have no colon is read off its text.
-/
import Mathlib.Data.List.Forall2
import SignatureAlgebra.Proofs.Name.Interning
import SignatureAlgebra.TypeName

namespace SignatureAlgebra.TypeName

/-- What stands between two segments, and in front of the first if the name is absolute. -/
def separator : List Char := [':', ':']

/-- What stands in front of the first segment. -/
def mark (absolute : Bool) : List Char := if absolute then separator else []

/-! ### Cutting -/

theorem intercalate_append_cons (before first : List Char) (more : List (List Char)) :
    separator.intercalate ((before ++ first) :: more) = before ++ separator.intercalate (first :: more) := by
  cases more with
  | nil => rw [List.intercalate_singleton, List.intercalate_singleton]
  | cons next rest => simp only [List.intercalate_cons_cons, List.append_assoc]

/-- The pieces put together again are the text. -/
theorem intercalate_cut (text : List Char) :
    separator.intercalate ((cut text).1 :: (cut text).2) = text := by
  fun_induction cut text with
  | case1 => rfl
  | case2 rest first more isCut ih =>
    rw [isCut] at ih
    rw [List.intercalate_cons_cons, ih]
    rfl
  | case3 c rest notSeparator first more isCut ih =>
    rw [isCut] at ih
    exact (intercalate_append_cons [c] first more).trans (congrArg (c :: ·) ih)

/-- The first two of three colons stand between two pieces, and the third belongs to the second piece. -/
example : cut "a:::b::".toList = ("a".toList, [":b".toList, []]) := by decide

theorem cut_cons_of_ne {c : Char} (notColon : c ≠ ':') (rest : List Char) :
    cut (c :: rest) = (c :: (cut rest).1, (cut rest).2) := by
  rw [cut]
  intro after isColon
  exact absurd isColon notColon

theorem cut_append {piece : List Char} (plain : ':' ∉ piece) (rest : List Char) :
    cut (piece ++ rest) = (piece ++ (cut rest).1, (cut rest).2) := by
  induction piece with
  | nil => rfl
  | cons c piece ih =>
    have notColon : c ≠ ':' := (List.ne_of_not_mem_cons plain).symm
    rw [List.cons_append, cut_cons_of_ne notColon, ih (List.not_mem_of_not_mem_cons plain)]
    rfl

theorem cut_separator_append (rest : List Char) :
    cut (separator ++ rest) = ([], (cut rest).1 :: (cut rest).2) :=
  rfl

/-- Pieces without a colon are found again. -/
theorem cut_intercalate {first : List Char} {more : List (List Char)}
    (plain : ∀ piece ∈ first :: more, ':' ∉ piece) :
    cut (separator.intercalate (first :: more)) = (first, more) := by
  induction more generalizing first with
  | nil =>
    have whole := cut_append (plain first List.mem_cons_self) []
    rw [List.append_nil] at whole
    rw [List.intercalate_singleton, whole]
    exact congrArg (·, []) (List.append_nil first)
  | cons next rest ih =>
    have cutRest := ih fun piece isPiece => plain piece (List.mem_cons_of_mem _ isPiece)
    rw [List.intercalate_cons_cons, List.append_assoc, cut_append (plain first List.mem_cons_self),
      cut_separator_append, cutRest, List.append_nil]

/-- The mark of the root put back in front is the text. -/
theorem mark_splitRoot (text : List Char) : mark (splitRoot text).1 ++ (splitRoot text).2 = text := by
  fun_cases splitRoot text with
  | case1 => rfl
  | case2 => rfl

theorem splitRoot_mark {text : List Char} (absolute : Bool) (plain : text.head? ≠ some ':') :
    splitRoot (mark absolute ++ text) = (absolute, text) := by
  cases absolute with
  | true => rfl
  | false =>
    show splitRoot text = (false, text)
    fun_cases splitRoot text with
    | case1 rest => exact absurd rfl plain
    | case2 => rfl

/-- A first piece that is neither empty nor has a colon does not start with the mark of the root. -/
theorem head?_intercalate_ne {first : List Char} (plain : first ≠ [] ∧ ':' ∉ first)
    (more : List (List Char)) : (separator.intercalate (first :: more)).head? ≠ some ':' := by
  obtain ⟨c, rest, rfl⟩ := List.exists_cons_of_ne_nil plain.1
  intro isColon
  have starts : (separator.intercalate ((c :: rest) :: more)).head? = some c :=
    congrArg List.head? (intercalate_append_cons [c] rest more)
  have same : c = ':' := Option.some.inj (starts.symm.trans isColon)
  exact plain.2 (same ▸ List.mem_cons_self)

/-! ### Segments -/

/-- The segments of a name, its own the last. -/
def segments (name : TypeName) : List Name := name.scope.path ++ [name.name]

theorem eq_of_segments {name name' : TypeName} (absolute : name.scope.absolute = name'.scope.absolute)
    (segments : name.segments = name'.segments) : name = name' := by
  obtain ⟨⟨path, absolute⟩, last⟩ := name
  obtain ⟨⟨path', absolute'⟩, last'⟩ := name'
  obtain ⟨rfl, sameLast⟩ := List.append_inj' segments rfl
  obtain rfl := List.singleton_inj.1 sameLast
  obtain rfl := absolute
  rfl

theorem flatMap_append_separator (pieces : List (List Char)) (last : List Char) :
    pieces.flatMap (· ++ separator) ++ last = separator.intercalate (pieces ++ [last]) := by
  induction pieces with
  | nil => exact List.intercalate_singleton.symm
  | cons piece rest ih =>
    rw [List.flatMap_cons, List.append_assoc, ih]
    cases rest with
    | nil => simp [List.intercalate_cons_cons]
    | cons next rest => simp [List.intercalate_cons_cons]

/-- The text of a name is that of its segments, with the separator between them and the mark of the root in
front. -/
theorem toList_text (names : Interner) (name : TypeName) :
    (name.text names).toList =
      mark name.scope.absolute ++
        separator.intercalate (name.segments.map fun segment => (names.text segment).toList) := by
  have root : (if name.scope.absolute then "::" else "").toList = mark name.scope.absolute := by
    cases name.scope.absolute with
    | true => rfl
    | false => rfl
  have scope : (String.join (name.scope.path.map fun segment => names.text segment ++ "::")).toList =
      (name.scope.path.map fun segment => (names.text segment).toList).flatMap (· ++ separator) := by
    rw [String.toList_join, List.flatMap_map, List.flatMap_map]
    exact congrArg (name.scope.path.flatMap ·) (funext fun segment => String.toList_append)
  rw [text, Namespace.text, String.toList_append, String.toList_append, root, scope, List.append_assoc,
    flatMap_append_separator, segments, List.map_append]
  rfl

/-- **A name that can be read off its text**: its segments have texts that are not empty and have no
colon. -/
def IsPlain (names : Interner) (name : TypeName) : Prop :=
  ∀ segment ∈ name.segments,
    ∃ text, names.text? segment = some text ∧ text ≠ "" ∧ ':' ∉ text.toList

/-! ### Pieces and names -/

theorem internAll_cons (piece : List Char) (rest : List (List Char)) (names : Interner) :
    internAll (piece :: rest) names =
      let first := names.intern (String.ofList piece)
      let more := internAll rest first.2
      (first.1 :: more.1, more.2) :=
  rfl

/-- The pieces are met one after the other, and each gets a name with its text. -/
theorem texts_internAll (pieces : List (List Char)) (names : Interner) :
    names.texts <+: (internAll pieces names).2.texts ∧
      List.Forall₂ (fun piece name => (internAll pieces names).2.text? name = some (String.ofList piece))
        pieces (internAll pieces names).1 := by
  induction pieces generalizing names with
  | nil => exact ⟨List.prefix_rfl, .nil⟩
  | cons piece rest ih =>
    obtain ⟨grows, known⟩ := ih (names.intern (String.ofList piece)).2
    exact ⟨(Interner.texts_prefix_intern names _).trans grows,
      .cons (Interner.text?_of_prefix grows (Interner.text?_intern names _)) known⟩

/-- The texts of names are met as these names. -/
theorem internAll_texts {names : Interner} (distinct : names.texts.Nodup) {segments : List Name}
    (known : ∀ segment ∈ segments, ∃ text, names.text? segment = some text) :
    internAll (segments.map fun segment => (names.text segment).toList) names = (segments, names) := by
  induction segments with
  | nil => rfl
  | cons segment rest ih =>
    obtain ⟨text, isText⟩ := known segment List.mem_cons_self
    have met : names.intern (String.ofList (names.text segment).toList) = (segment, names) := by
      rw [String.ofList_toList, Interner.text, isText]
      exact Interner.intern_of_text? distinct isText
    rw [List.map_cons, internAll_cons, met]
    simp only [ih fun segment isSegment => known segment (List.mem_cons_of_mem _ isSegment)]

/-! ### Reading -/

/-- The pieces that a text is cut into after the mark of the root. -/
def pieces (text : String) : List (List Char) :=
  (cut (splitRoot text.toList).2).1 :: (cut (splitRoot text.toList).2).2

theorem mark_intercalate_pieces (text : String) :
    mark (splitRoot text.toList).1 ++ separator.intercalate (pieces text) = text.toList := by
  rw [pieces, intercalate_cut, mark_splitRoot]

theorem absolute_ofText (text : String) (names : Interner) :
    (ofText text names).1.scope.absolute = (splitRoot text.toList).1 :=
  rfl

theorem segments_ofText (text : String) (names : Interner) :
    (ofText text names).1.segments = (internAll (pieces text) names).1 := by
  obtain ⟨found, isFound⟩ : ∃ found, found = (internAll (pieces text) names).1 := ⟨_, rfl⟩
  have nonempty : found ≠ [] := isFound ▸ List.cons_ne_nil _ _
  show (internAll (pieces text) names).1.dropLast ++ [(internAll (pieces text) names).1.getLastD .empty] = _
  rw [← isFound, List.getLastD_eq_getLast?, List.getLast?_eq_some_getLast nonempty]
  exact List.dropLast_concat_getLast nonempty

theorem names_ofText (text : String) (names : Interner) :
    (ofText text names).2 = (internAll (pieces text) names).2 :=
  rfl

/-- Whatever is met later, the name that was read off a text is written as that text. -/
theorem toList_text_ofText (text : String) (names : Interner) {later : Interner}
    (grows : (ofText text names).2.texts <+: later.texts) :
    ((ofText text names).1.text later).toList = text.toList := by
  obtain ⟨_, known⟩ := texts_internAll (pieces text) names
  have written : (internAll (pieces text) names).1.map (fun segment => (later.text segment).toList) =
      pieces text := by
    refine List.forall₂_eq_eq_eq ▸ List.forall₂_map_left_iff.2 (known.flip.imp fun segment piece isText => ?_)
    rw [Interner.text, Interner.text?_of_prefix grows isText]
    exact String.toList_ofList
  rw [toList_text, segments_ofText, absolute_ofText, written, mark_intercalate_pieces]

/-- A plain name is read off its text. -/
theorem ofText_text_of_isPlain {names : Interner} (distinct : names.texts.Nodup) {name : TypeName}
    (plain : name.IsPlain names) : ofText (name.text names) names = (name, names) := by
  have known : ∀ segment ∈ name.segments, ∃ text, names.text? segment = some text :=
    fun segment isSegment => (plain segment isSegment).imp fun _ isText => isText.1
  obtain ⟨first, more, written⟩ : ∃ first more,
      name.segments.map (fun segment => (names.text segment).toList) = first :: more :=
    List.exists_cons_of_ne_nil fun isNil => List.concat_ne_nil _ _ (List.map_eq_nil_iff.1 isNil)
  have isPlain : ∀ piece ∈ first :: more, piece ≠ [] ∧ ':' ∉ piece := by
    intro piece isPiece
    rw [← written] at isPiece
    obtain ⟨segment, isSegment, rfl⟩ := List.mem_map.1 isPiece
    obtain ⟨text, isText, notEmpty, noColon⟩ := plain segment isSegment
    rw [Interner.text, isText]
    exact ⟨fun isNil => notEmpty (String.toList_eq_nil_iff.1 isNil), noColon⟩
  have split : splitRoot (name.text names).toList =
      (name.scope.absolute, separator.intercalate (first :: more)) := by
    rw [toList_text, written]
    exact splitRoot_mark _ (head?_intercalate_ne (isPlain first List.mem_cons_self) more)
  have read : pieces (name.text names) = name.segments.map fun segment => (names.text segment).toList := by
    rw [pieces, split, cut_intercalate fun piece isPiece => (isPlain piece isPiece).2, written]
  refine Prod.ext (eq_of_segments ?_ ?_) ?_
  · rw [absolute_ofText, split]
  · rw [segments_ofText, read, internAll_texts distinct known]
  · rw [names_ofText, read, internAll_texts distinct known]

/-- **Type names and their text are inverse**, for every interner that has met some texts. Whatever is met
later, the name read off a text is written as that text. A name whose segments are not empty and have no
colon is read off its text and nothing is interned, so two such names with one text are the same. -/
theorem text_ofText (met : List String) :
    let names := Interner.initial.meet met
    (∀ (text : String) (more : List String),
      let read := ofText text names
      read.1.text (read.2.meet more) = text) ∧
    (∀ name : TypeName, name.IsPlain names → ofText (name.text names) names = (name, names)) ∧
    ∀ name name' : TypeName, name.IsPlain names → name'.IsPlain names →
      name.text names = name'.text names → name = name' := by
  intro names
  have distinct : names.texts.Nodup := Interner.nodup_initial_meet met
  refine ⟨fun text more => ?_, fun name plain => ofText_text_of_isPlain distinct plain, ?_⟩
  · exact String.toList_inj.1 (toList_text_ofText text names (Interner.texts_prefix_meet _ more))
  · intro name name' plain plain' same
    have read := ofText_text_of_isPlain distinct plain
    rw [same, ofText_text_of_isPlain distinct plain'] at read
    exact (congrArg Prod.fst read).symm

/-- An absolute name with two segments is read off its text. -/
theorem text_ofText_nested :
    let names := Interner.initial.meet ["Foo", "Bar"]
    let name : TypeName := ⟨⟨[⟨26⟩], true⟩, ⟨27⟩⟩
    name.IsPlain names ∧ name.text names = "::Foo::Bar" ∧ ofText "::Foo::Bar" names = (name, names) := by
  intro names name
  have plain : name.IsPlain names := by
    intro segment isSegment
    rcases List.mem_cons.1 isSegment with rfl | isLast
    · exact ⟨"Foo", by decide, by decide, by decide⟩
    · exact ⟨"Bar", List.mem_singleton.1 isLast ▸ by decide, by decide, by decide⟩
  have written : name.text names = "::Foo::Bar" := by decide
  exact ⟨plain, written, written ▸ (text_ofText ["Foo", "Bar"]).2.1 name plain⟩

end SignatureAlgebra.TypeName
