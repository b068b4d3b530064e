import Qualify.Proofs.Scope.Sound

/-!
# Bindings written as declarations

A sound binding is written as a declaration of its own: `use`, the trees of its path,
`as`, its name and `;`. The trees of a path are the segments of one chain with a separator
behind each but the last (`Led.exists_of_path`), and the separator that puts a path under
the root is the one that a declaration may start with. So the declaration spells one item
(`exists_spelled_declaration`), and a list of bindings is read back from its declarations
as it is, segments, markers, placeholders and spans included (`leading_declarations`).
A name that is left out comes back as the last name of the path.

## Main definitions

- `Binding.declaration` — a binding as a declaration, with its name or without it
- `Declaration.ReadBack` — declarations that are read back as given bindings
-/

namespace Qualify

namespace Binding

/-- The trees that give a path a new name. -/
def asName (binding : Binding) : Forest := [.ident { text := "as" }, .ident binding.name]

/-- A binding as a declaration of its own, with `as` and its name or without. -/
def declaration (binding : Binding) (renames : Bool) : Except Fault Forest :=
  binding.path.render.map fun path =>
    .ident { text := "use" } ::
      (path ++ (if renames then binding.asName else []) ++ [.punct { text := ";" }])

/-- The binding that a declaration of `binding` makes: without `as` the path is bound
under its last name. -/
def declared (binding : Binding) (renames : Bool) : Binding :=
  match renames, binding.path.getLast? with
  | false, some (.name ident) => { binding with name := ident }
  | _, _ => binding

/-- Bindings as declarations, one after the other. -/
def declarations : List (Binding × Bool) → Except Fault Forest
  | [] => .ok []
  | (binding, renames) :: rest =>
    match binding.declaration renames, declarations rest with
    | .ok front, .ok back => .ok (front ++ back)
    | .error fault, _ => .error fault
    | _, .error fault => .error fault

end Binding

namespace Declaration

/-- The trees of a path without a root are those of a chain. -/
theorem Led.exists_of_path (first : Segment) (rest : List Segment)
    (h : ∀ segment ∈ first :: rest, segment.Marked) :
    ∃ front last lead, first :: rest = front ++ [last] ∧ Led front lead ∧
      first.trees ++ rest.flatMap Segment.rooted = lead ++ last.trees := by
  induction rest generalizing first with
  | nil => exact ⟨[], first, [], rfl, .nil, List.append_nil _⟩
  | cons second rest ih =>
    obtain ⟨front, last, lead, hpath, hled, htrees⟩ := ih second (List.forall_mem_cons.mp h).2
    have hseparate : Tree.Separate (.punct { text := ":", spacing := .joint })
        (.punct { text := ":", spacing := if second.isPlaceholder then .joint else .alone }) :=
      ⟨rfl, rfl⟩
    refine ⟨first :: front, last, _, ?_, .cons (h first List.mem_cons_self) hseparate hled, ?_⟩
    · rw [hpath, List.cons_append]
    · simp only [List.flatMap_cons, Segment.rooted, List.append_assoc, List.cons_append, htrees]

/-- An item that starts with the segments of a path is declared by the trees of that path
and what ends the item: the root is the separator behind `use`. -/
theorem Spelled.of_path {first : Segment} {rest : List Segment} {clause : Clause}
    {ending : Forest}
    (h : clause.Spelled (first.trees ++ rest.flatMap Segment.rooted ++ ending)) :
    Spelled [clause] (.ident { text := "use" } ::
      (Path.trees (first :: rest) ++ ending ++ [.punct { text := ";" }])) := by
  have hitems := Clauses.Spelled.cons h .stop
  rw [List.append_nil] at hitems
  cases first with
  | placeholder marker tree => exact .relative rfl hitems rfl
  | name ident => exact .rooted rfl ⟨rfl, rfl⟩ hitems rfl

/-- A sound binding is declared by one item, which binds what it should. -/
theorem exists_spelled_declaration {binding : Binding} (h : binding.Sound) (renames : Bool)
    (hnamed : renames = false → ∃ ident, binding.path.getLast? = some (.name ident)) :
    ∃ clause used, binding.declaration renames = .ok used ∧ Spelled [clause] used ∧
      clause.Valid [] ∧ clause.bindings [] = [binding.declared renames] := by
  obtain ⟨name, path⟩ := binding
  cases path with
  | nil => exact absurd rfl h.path_ne_nil
  | cons first rest =>
    obtain ⟨front, last, lead, hpath, hled, htrees⟩ := Led.exists_of_path first rest h.marked
    have hself := h.isSelf_eq_false
    have hmarked := h.marked
    rw [hpath] at hself hmarked
    have hlast : last.isSelf = false := hself last List.mem_concat_self
    have hselfless := Clause.selfless_of_not_self []
      (fun segment hmem => hself segment (List.mem_append_left _ hmem)) hlast
    have hchain : Clause.path [] front last = first :: rest :=
      (Clause.path_of_not_self [] front hlast).trans hpath.symm
    have hmarker : last.Marked := hmarked last List.mem_concat_self
    cases renames with
    | true =>
      have hspelled : (Clause.renamed front last name).Spelled (first.trees ++
          rest.flatMap Segment.rooted ++ Binding.asName ⟨name, first :: rest⟩) := by
        rw [htrees, List.append_assoc]
        exact .renamed name hled hmarker rfl
      refine ⟨_, _, rfl, .of_path hspelled, hselfless, ?_⟩
      rw [Clause.bindings, hchain]
      rfl
    | false =>
      obtain ⟨ident, hident⟩ : ∃ ident, List.getLast? (first :: rest) = some (.name ident) :=
        hnamed rfl
      have hspelled : (Clause.plain front last).Spelled
          (first.trees ++ rest.flatMap Segment.rooted ++ []) := by
        rw [htrees, List.append_nil]
        exact .plain hled hmarker
      refine ⟨_, _, rfl, .of_path hspelled, ⟨hselfless, ident, hchain ▸ hident⟩, ?_⟩
      simp only [Clause.bindings, hchain, Clause.plainBinding, Binding.declared, hident]

/-- Declarations that are written out and read back, in plain style, as `bindings`. -/
def ReadBack (stop : Span) (entries : List (Binding × Bool)) (bindings : List Binding) : Prop :=
  ∃ trees, Binding.declarations entries = .ok trees ∧
    leading .bare stop trees = .ok (bindings, [])

theorem readBack_declared (stop : Span) {entries : List (Binding × Bool)}
    (hsound : ∀ entry ∈ entries, entry.1.Sound)
    (hnamed : ∀ entry ∈ entries, entry.2 = false →
      ∃ ident, entry.1.path.getLast? = some (.name ident)) :
    ReadBack stop entries (entries.map fun entry => entry.1.declared entry.2) := by
  induction entries with
  | nil =>
    refine ⟨[], rfl, ?_⟩
    rw [leading]
    rfl
  | cons entry rest ih =>
    obtain ⟨clause, used, hused, hspelled, hvalid, hbindings⟩ := exists_spelled_declaration
      (hsound entry List.mem_cons_self) entry.2 (hnamed entry List.mem_cons_self)
    obtain ⟨trees, htrees, hleading⟩ := ih (List.forall_mem_cons.mp hsound).2
      (List.forall_mem_cons.mp hnamed).2
    refine ⟨used ++ trees, ?_, ?_⟩
    · rw [Binding.declarations, hused, htrees]
    · have hread := leading_of_spelled stop trees .bare hspelled ⟨hvalid, trivial⟩
      rw [List.nil_append, Clauses.bindings, Clauses.bindings, List.append_nil, hbindings,
        hleading] at hread
      exact hread

/-- With all names written the bindings themselves are read back. -/
theorem readBack_self (stop : Span) {bindings : List Binding}
    (h : ∀ binding ∈ bindings, binding.Sound) :
    ReadBack stop (bindings.map fun binding => (binding, true)) bindings := by
  have hread := @readBack_declared stop (bindings.map fun binding => (binding, true))
    (by simpa using h) (by simp)
  rw [List.map_map] at hread
  have hdeclared : (fun binding : Binding => binding.declared true) = id := rfl
  simpa [Function.comp_def, hdeclared] using hread

/-- Bindings survive being written out as declarations. Sound bindings, among them all that
declarations of either style bind, are read back as they are and in their order, and
nothing is left; where a path ends in a name, `as` and the name may be left out, and the
path comes back under its last name. -/
theorem leading_declarations (stop : Span) :
    (∀ bindings : List Binding, (∀ binding ∈ bindings, binding.Sound) →
      ReadBack stop (bindings.map fun binding => (binding, true)) bindings) ∧
    (∀ style place trees bindings left, leading style place trees = .ok (bindings, left) →
      ReadBack stop (bindings.map fun binding => (binding, true)) bindings) ∧
    ∀ entries : List (Binding × Bool), (∀ entry ∈ entries, entry.1.Sound) →
      (∀ entry ∈ entries, entry.2 = false →
        ∃ ident, entry.1.path.getLast? = some (.name ident)) →
      ReadBack stop entries (entries.map fun entry => entry.1.declared entry.2) := by
  refine ⟨fun bindings h => readBack_self stop h, ?_, fun entries => readBack_declared stop⟩
  intro style place trees bindings left h
  exact readBack_self stop (sound_of_leading h)

/-- Placeholders for a `;` and for braces, names that are words of the grammar, a name that
is left out, and the bindings of a declaration that was read. -/
theorem leading_declarations_words :
    let pound : Punct := { text := "#", spacing := .joint }
    let semicolon : Segment := .placeholder pound (.punct { text := ";" })
    let braces : Segment := .placeholder pound (.group .brace [.ident { text := "use" }] {})
    let first : Binding := ⟨{ text := "x" }, [semicolon, .name { text := "as" }]⟩
    let second : Binding := ⟨{ text := "use" }, [.name { text := "use" }, braces]⟩
    let last : Binding := ⟨{ text := "as" }, [semicolon, .name { text := "as" }]⟩
    (first.Sound ∧ second.Sound ∧
      ReadBack {} [(first, true), (second, true)] [first, second] ∧
      ReadBack {} [(first, false), (second, true)] [last, second]) ∧
    ∃ trees bindings left, Forest.lex none "# use #(r)::\x7bself as s, b\x7d;#t" = .ok trees ∧
      leading .pound {} trees = .ok (bindings, left) ∧ bindings.length = 2 ∧
      ReadBack {} (bindings.map fun binding => (binding, true)) bindings := by
  intro pound semicolon braces first second last
  have hfirst : first.Sound := ⟨nofun, by decide, by simp [first, semicolon, pound, Segment.Marked]⟩
  have hsecond : second.Sound := ⟨nofun, by decide, by simp [second, braces, pound, Segment.Marked]⟩
  obtain ⟨hall, hread, hnamed⟩ := leading_declarations {}
  refine ⟨⟨hfirst, hsecond, ?_, ?_⟩, ?_⟩
  · exact hall [first, second] (by simp [hfirst, hsecond])
  · refine hnamed [(first, false), (second, true)] (by simp [hfirst, hsecond]) ?_
    simp [first]
  · have hcheck : ((Forest.lex none "# use #(r)::\x7bself as s, b\x7d;#t").toOption.bind fun trees =>
        (leading .pound {} trees).toOption.map fun reading => reading.1.length) = some 2 := by
      decide +kernel
    obtain ⟨trees, hlex, hcheck⟩ := Option.bind_eq_some_iff.mp hcheck
    obtain ⟨⟨bindings, left⟩, hleading, hlength⟩ := Option.map_eq_some_iff.mp hcheck
    have hleading := eq_ok_of_toOption hleading
    exact ⟨trees, bindings, left, eq_ok_of_toOption hlex, hleading, hlength,
      hread .pound {} trees bindings left hleading⟩

end Declaration

end Qualify
