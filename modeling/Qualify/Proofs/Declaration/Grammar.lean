import Qualify.Declaration

/-!
# The grammar of declarations

What a declaration says, apart from how it is read. A `Clause` is one item of a
declaration; `Clause.Spelled` relates it to the trees it is written with,
`Clause.Valid` states the rules about `self` and about tails without a name, and
`Clause.bindings` lists what it binds by recursion on its structure.

## Main definitions

- `Clause` — a group of items, a plain chain, or a renamed chain
- `Clause.Spelled`, `Clauses.Spelled`, `Clauses.Continued` — an item, a level of
  items, and what follows an item on its level
- `Clause.Valid`, `Clause.bindings` — both under the path of the enclosing groups
- `Spelled` — a whole declaration, from `use` to `;`

## Design notes

Every item is a run of segments with `::` behind each, and then the part that ends
it: a group in braces, a last segment, or a last segment with an alias. A group
without segments in front is the same item with an empty run.
-/

namespace Qualify

/-- A segment that a text can hold: the marker of a placeholder is `#`. -/
def Segment.Marked : Segment → Prop
  | .name _ => True
  | .placeholder marker _ => marker.text = "#"

/-- Two trees that spell the separator `::`. -/
def Tree.Separate (first second : Tree) : Prop :=
  first.isPunctSpaced ":" .joint = true ∧ second.isPunct ":" = true

namespace Declaration

/-- An item of a declaration. -/
inductive Clause where
  | group (front : List Segment) (members : List Clause)
  | plain (front : List Segment) (last : Segment)
  | renamed (front : List Segment) (last : Segment) (name : Ident)

/-- Segments with a separator behind each. -/
inductive Led : List Segment → Forest → Prop
  | nil : Led [] []
  | cons {segment : Segment} {first second : Tree} {front : List Segment} {lead : Forest}
      (marked : segment.Marked) (separate : first.Separate second) (rest : Led front lead) :
      Led (segment :: front) (segment.trees ++ first :: second :: lead)

mutual

/-- The trees an item is written with. -/
inductive Clause.Spelled : Clause → Forest → Prop
  | group {front : List Segment} {members : List Clause} {lead inner : Forest} (span : Span)
      (led : Led front lead) (spelled : Clauses.Spelled members inner) :
      Clause.Spelled (.group front members) (lead ++ [.group .brace inner span])
  | plain {front : List Segment} {last : Segment} {lead : Forest}
      (led : Led front lead) (marked : last.Marked) :
      Clause.Spelled (.plain front last) (lead ++ last.trees)
  | renamed {front : List Segment} {last : Segment} {lead : Forest} {word : Tree} (name : Ident)
      (led : Led front lead) (marked : last.Marked) (as : word.isIdent "as" = true) :
      Clause.Spelled (.renamed front last name) (lead ++ (last.trees ++ [word, .ident name]))

/-- The trees a level of items is written with: nothing, or an item and what
follows it. -/
inductive Clauses.Spelled : List Clause → Forest → Prop
  | nil : Clauses.Spelled [] []
  | cons {clause : Clause} {clauses : List Clause} {trees rest : Forest}
      (spelled : Clause.Spelled clause trees) (continued : Clauses.Continued clauses rest) :
      Clauses.Spelled (clause :: clauses) (trees ++ rest)

/-- What follows an item: the end of the items, or a comma and further items, of
which there may be none. -/
inductive Clauses.Continued : List Clause → Forest → Prop
  | stop : Clauses.Continued [] []
  | comma {clauses : List Clause} {tree : Tree} {rest : Forest} (comma : tree.isPunct "," = true)
      (spelled : Clauses.Spelled clauses rest) : Clauses.Continued clauses (tree :: rest)

end

/-- The path that a chain leads to: the enclosing path and its own segments,
without a `self` at the end. -/
def Clause.path (outer : Path) (front : List Segment) (last : Segment) : Path :=
  Path.dropSelf (outer ++ front ++ [last])

/-- No segment in front of a separator is `self`, and a `self` at the end has a
path in front of it. -/
def Clause.Selfless (outer : Path) (front : List Segment) (last : Segment) : Prop :=
  (∀ segment ∈ front, segment.isSelf = false) ∧ (last.isSelf = true → outer ++ front ≠ [])

mutual

/-- The rules an item keeps under the path of the groups around it. -/
def Clause.Valid (outer : Path) : Clause → Prop
  | .group front members =>
    (∀ segment ∈ front, segment.isSelf = false) ∧ Clauses.Valid (outer ++ front) members
  | .plain front last =>
    Clause.Selfless outer front last ∧
      ∃ ident, (Clause.path outer front last).getLast? = some (.name ident)
  | .renamed front last _ => Clause.Selfless outer front last

/-- The rules hold for every item of a level. -/
def Clauses.Valid (outer : Path) : List Clause → Prop
  | [] => True
  | clause :: clauses => clause.Valid outer ∧ Clauses.Valid outer clauses

end

/-- Bind a path under its last segment, if that is a name. -/
def Clause.plainBinding (path : Path) : List Binding :=
  match path.getLast? with
  | some (.name ident) => [⟨ident, path⟩]
  | _ => []

mutual

/-- What an item binds under the path of the groups around it. -/
def Clause.bindings (outer : Path) : Clause → List Binding
  | .group front members => Clauses.bindings (outer ++ front) members
  | .plain front last => Clause.plainBinding (Clause.path outer front last)
  | .renamed front last name => [⟨name, Clause.path outer front last⟩]

/-- What a level of items binds, left to right. -/
def Clauses.bindings (outer : Path) : List Clause → List Binding
  | [] => []
  | clause :: clauses => clause.bindings outer ++ Clauses.bindings outer clauses

end

/-- The trees a declaration is written with, from its `use` to its `;`. -/
inductive Spelled : List Clause → Forest → Prop
  | relative {clauses : List Clause} {trees : Forest} {word semicolon : Tree}
      (use : word.isIdent "use" = true) (spelled : Clauses.Spelled clauses trees)
      (ended : semicolon.isPunct ";" = true) :
      Spelled clauses (word :: (trees ++ [semicolon]))
  | rooted {clauses : List Clause} {trees : Forest} {word first second semicolon : Tree}
      (use : word.isIdent "use" = true) (separate : first.Separate second)
      (spelled : Clauses.Spelled clauses trees) (ended : semicolon.isPunct ";" = true) :
      Spelled clauses (word :: first :: second :: (trees ++ [semicolon]))

/-! ### Items with one more segment in front -/

/-- The same item with one more segment in front. -/
def Clause.under (segment : Segment) : Clause → Clause
  | .group front members => .group (segment :: front) members
  | .plain front last => .plain (segment :: front) last
  | .renamed front last name => .renamed (segment :: front) last name

/-- A segment and a separator in front spell one more segment. -/
theorem Clause.Spelled.under {clause : Clause} {trees : Forest} {segment : Segment}
    {first second : Tree} (h : clause.Spelled trees) (hm : segment.Marked)
    (hs : first.Separate second) :
    (clause.under segment).Spelled (segment.trees ++ first :: second :: trees) := by
  cases h with
  | group span led spelled =>
    have hg := Clause.Spelled.group span (.cons hm hs led) spelled
    simpa only [Clause.under, List.append_assoc, List.cons_append] using hg
  | plain led marked =>
    have hp := Clause.Spelled.plain (.cons hm hs led) marked
    simpa only [Clause.under, List.append_assoc, List.cons_append] using hp
  | renamed name led marked as =>
    have hr := Clause.Spelled.renamed name (.cons hm hs led) marked as
    simpa only [Clause.under, List.append_assoc, List.cons_append] using hr

theorem Clause.path_cons (outer : Path) (segment : Segment) (front : List Segment)
    (last : Segment) :
    Clause.path outer (segment :: front) last = Clause.path (outer ++ [segment]) front last := by
  simp [Clause.path]

theorem Clause.Selfless.cons {outer : Path} {segment : Segment} {front : List Segment}
    {last : Segment} (h : Clause.Selfless (outer ++ [segment]) front last)
    (hs : segment.isSelf = false) : Clause.Selfless outer (segment :: front) last := by
  refine ⟨?_, fun _ => by simp⟩
  intro other ho
  rcases List.mem_cons.mp ho with rfl | ho
  · exact hs
  · exact h.1 other ho

theorem Clause.Valid.under {outer : Path} {clause : Clause} {segment : Segment}
    (h : clause.Valid (outer ++ [segment])) (hs : segment.isSelf = false) :
    (clause.under segment).Valid outer := by
  cases clause with
  | group front members =>
    simp only [Clause.Valid, Clause.under, List.append_assoc, List.singleton_append,
      List.forall_mem_cons] at h ⊢
    exact ⟨⟨hs, h.1⟩, h.2⟩
  | plain front last =>
    simp only [Clause.Valid, Clause.under, Clause.path_cons] at h ⊢
    exact ⟨h.1.cons hs, h.2⟩
  | renamed front last name =>
    simp only [Clause.Valid, Clause.under] at h ⊢
    exact h.cons hs

/-- A segment in front and a segment of the enclosing path bind alike. -/
theorem Clause.bindings_under (outer : Path) (clause : Clause) (segment : Segment) :
    (clause.under segment).bindings outer = clause.bindings (outer ++ [segment]) := by
  cases clause with
  | group front members => simp [Clause.under, Clause.bindings]
  | plain front last => simp only [Clause.under, Clause.bindings, Clause.path_cons]
  | renamed front last name => simp only [Clause.under, Clause.bindings, Clause.path_cons]

end Declaration

end Qualify
