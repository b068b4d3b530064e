import Qualify.Quote
import Qualify.Proofs.Qualifier.Rewriting

/-!
# Expanded bodies as text

What expanding a body puts out is read back from its text as it is
(`lex_render_expand`). The declarations bind words and leave the end of the body
(`Quote.words_of_read`), expanding rewrites the events of that tail
(`Quote.rewritten_expand`), and what a flavor puts around it is made up of a path, marks
that stand alone and a group. The span expression is kept; the arrow behind it is made
up again, without the mark that may have been joint to it.

## Main definitions

- `Quote.isNamed` — every placeholder of the declarations is for an identifier
-/

namespace Qualify

open Event (Readable Rewritten Word)

/-- Whether every placeholder of the declarations is for an identifier. -/
def Quote.isNamed (quote : Quote) : Bool :=
  quote.bindings.all fun binding => binding.path.all Segment.isNamed

/-! ### Bodies -/

theorem exists_of_startsWith_arrow {tree : Tree} {rest : Forest}
    (h : Forest.startsWith ['=', '>'] (tree :: rest) = true) :
    ∃ equals greater after, tree = .punct equals ∧ rest = .punct greater :: after := by
  cases rest with
  | nil => simp [Forest.startsWith] at h
  | cons second after =>
    simp only [Forest.startsWith, Bool.and_eq_true] at h
    obtain ⟨equals, rfl⟩ := Declaration.exists_punct_of_isPunct
      (Declaration.isPunct_of_isPunctSpaced h.1)
    obtain ⟨greater, rfl⟩ := Declaration.exists_punct_of_isPunct h.2
    exact ⟨equals, greater, after, rfl, rfl⟩

/-- A span expression is cut off in front of two marks. -/
theorem exists_of_splitArrow? {trees expression body : Forest}
    (h : splitArrow? trees = some (expression, body)) :
    ∃ equals greater, trees = expression ++ .punct equals :: .punct greater :: body := by
  induction trees generalizing expression with
  | nil => cases h
  | cons tree rest ih =>
    rw [splitArrow?] at h
    split at h
    · next harrow =>
      cases h
      obtain ⟨equals, greater, after, rfl, rfl⟩ := exists_of_startsWith_arrow harrow
      exact ⟨equals, greater, rfl⟩
    · obtain ⟨⟨inner, after⟩, hsplit, heq⟩ := Option.map_eq_some_iff.mp h
      cases heq
      obtain ⟨equals, greater, rfl⟩ := ih hsplit
      exact ⟨equals, greater, rfl⟩

/-- A body of a flavor is all of its trees, or what follows the marks behind the span
expression. -/
theorem Flavor.exists_of_split {flavor : Flavor} {trees expression body : Forest}
    (h : flavor.split trees = .ok (expression, body)) :
    flavor.isSpanned = false ∧ expression = [] ∧ body = trees ∨
      flavor.isSpanned = true ∧
        ∃ equals greater, trees = expression ++ .punct equals :: .punct greater :: body := by
  rw [Flavor.split] at h
  split at h
  · next hspanned =>
    refine .inr ⟨hspanned, exists_of_splitArrow? ?_⟩
    rw [splitSpan] at h
    split at h
    · cases h
    · cases h
    · next hsplit =>
      cases h
      exact hsplit
  · next hspanned =>
    cases h
    exact .inl ⟨by simpa using hspanned, rfl, rfl⟩

theorem Quote.leading_of_read {style : Style} {trees : Forest} {quote : Quote}
    (h : Quote.read style trees = .ok quote) :
    Declaration.leading style {} trees = .ok (quote.bindings, quote.tail) := by
  unfold Quote.read at h
  split at h
  · cases h
  · next hleading =>
    cases h
    exact hleading

/-- Declarations at the head of readable trees bind words if their placeholders are all
for identifiers, and the tail is the end of the trees. -/
theorem Quote.words_of_read {style : Style} {trees : Forest} {quote : Quote}
    (h : Quote.read style trees = .ok quote) (hr : Readable (Forest.events trees))
    (hnamed : quote.isNamed = true) :
    (∀ binding ∈ quote.bindings, Word (Forest.events binding.path.trees)) ∧
      ∃ front, trees = front ++ quote.tail := by
  obtain ⟨hwithin, hfront⟩ :=
    Declaration.within_of_leading (Quote.leading_of_read h) List.infix_rfl
  refine ⟨fun binding hmem => ?_, hfront⟩
  have hpath := List.all_eq_true.mp hnamed binding hmem
  exact Segment.Within.word_trees (hwithin binding hmem) hr (List.all_eq_true.mp hpath)

/-- Expanding a quote rewrites the events of its tail. -/
theorem Quote.rewritten_expand {quote : Quote} {config : Config} {new : List Event}
    (hoff : config.namespacing = false)
    (hwords : ∀ binding ∈ quote.bindings, Word (Forest.events binding.path.trees))
    (hsplices : quote.tail.splicesLifetime = false) (hr : Readable (Forest.events quote.tail))
    (hnew : ∀ ticked, Rewritten ticked [] new) :
    Rewritten false (Forest.events quote.tail) (Forest.events (quote.expand config) ++ new) := by
  have hroot : (Qualifier.ofScope (quote.scope config) config).root = none := by
    simp [Qualifier.ofScope, hoff]
  rw [← List.append_nil (Forest.events quote.tail)] at hr ⊢
  rw [Quote.expand, Qualifier.qualify_eq_level]
  exact Qualifier.rewritten_level hroot (Scope.words_ofBindings config hwords) hnew quote.tail
    (Qualifier.guarded_start hsplices) hr

/-! ### Calls of quoting macros -/

theorem Path.word_names {names : List String}
    (h : ∀ name ∈ names, Terminal.IsIdent name.toList) :
    Word (Forest.events (Path.trees (names.map fun name => .name { text := name }))) := by
  refine Path.word_trees ?_
  intro segment hmem
  obtain ⟨name, hname, rfl⟩ := List.mem_map.mp hmem
  exact ⟨h name hname, rfl⟩

theorem Binding.word_noPrelude : Word (Forest.events Binding.noPrelude.path.trees) := by
  refine Path.word_names (List.forall_mem_singleton.mpr ?_)
  exact .inl ⟨by decide, List.all_eq_true.mp (by decide)⟩

theorem Flavor.word_path (flavor : Flavor) : Word (Forest.events flavor.path.trees) := by
  have hcrate : Terminal.IsIdent flavor.crate.toList := by
    cases flavor <;> exact .inl ⟨by decide, List.all_eq_true.mp (by decide)⟩
  have hname : Terminal.IsIdent flavor.name.toList := by
    cases flavor <;> exact .inl ⟨by decide, List.all_eq_true.mp (by decide)⟩
  exact Path.word_names (List.forall_mem_cons.mpr ⟨hcrate, List.forall_mem_singleton.mpr hname⟩)

/-- The call of a quoting macro is readable if what stands in its braces is. -/
theorem Flavor.readable_wrap {flavor : Flavor} {expression tail : Forest}
    (h : Readable (Forest.events expression ++
      (Forest.events (if flavor.isSpanned then Forest.operator ['=', '>'] else []) ++
        (Forest.events tail ++ [.closing .brace])))) :
    Readable (Forest.events (flavor.wrap expression tail)) := by
  rw [Flavor.wrap, Forest.events_append]
  refine flavor.word_path.readable ?_
  refine .alone (c := '!') (by decide) rfl rfl ?_
  rw [← List.append_nil (Forest.events _), Forest.events_group_append]
  refine .opening (by decide) ?_
  simpa [Forest.events_append, Forest.events] using h

theorem Flavor.exists_of_prepare {flavor : Flavor} {config : Config} {noPrelude : Bool}
    {trees expression : Forest} {quote : Quote}
    (h : flavor.prepare config noPrelude trees = .ok (expression, quote)) :
    ∃ body read, flavor.split trees = .ok (expression, body) ∧
      Quote.read config.style body = .ok read ∧
        quote = if noPrelude then read.withoutPrelude else read := by
  rw [Flavor.prepare] at h
  split at h
  · cases h
  · next hsplit =>
    split at h
    · cases h
    · next hread =>
      cases h
      exact ⟨_, _, hsplit, hread, rfl⟩

theorem Quote.words_withoutPrelude {quote : Quote}
    (h : ∀ binding ∈ quote.bindings, Word (Forest.events binding.path.trees)) :
    ∀ binding ∈ quote.withoutPrelude.bindings, Word (Forest.events binding.path.trees) :=
  List.forall_mem_cons.mpr ⟨Binding.word_noPrelude, h⟩

/-- What a flavor prepares from readable trees: declarations of words, and a tail that
ends the body. -/
theorem Flavor.words_of_prepare {flavor : Flavor} {config : Config} {noPrelude : Bool}
    {trees expression : Forest} {quote : Quote}
    (h : flavor.prepare config noPrelude trees = .ok (expression, quote))
    (hr : Readable (Forest.events trees)) (hnamed : quote.isNamed = true) :
    (∀ binding ∈ quote.bindings, Word (Forest.events binding.path.trees)) ∧
      ∃ front, flavor.split trees = .ok (expression, front ++ quote.tail) := by
  obtain ⟨body, read, hsplit, hread, hquote⟩ := Flavor.exists_of_prepare h
  have hbody : Readable (Forest.events body) := by
    rcases Flavor.exists_of_split hsplit with ⟨-, -, rfl⟩ | ⟨-, equals, greater, rfl⟩
    · exact hr
    · rw [Forest.events_append] at hr
      exact hr.of_append.tail.tail
  cases noPrelude with
  | false =>
    obtain rfl : quote = read := hquote
    obtain ⟨hwords, front, rfl⟩ := Quote.words_of_read hread hbody hnamed
    exact ⟨hwords, front, hsplit⟩
  | true =>
    obtain rfl : quote = read.withoutPrelude := hquote
    obtain ⟨hwords, front, rfl⟩ := Quote.words_of_read hread hbody hnamed
    exact ⟨Quote.words_withoutPrelude hwords, front, hsplit⟩

theorem Quote.readable_expand {quote : Quote} {config : Config} {trees : Forest}
    (hoff : config.namespacing = false) (h : Quote.read config.style trees = .ok quote)
    (hr : Readable (Forest.events trees)) (hnamed : quote.isNamed = true)
    (hsplices : quote.tail.splicesLifetime = false) :
    Readable (Forest.events (quote.expand config)) := by
  obtain ⟨hwords, front, rfl⟩ := Quote.words_of_read h hr hnamed
  rw [Forest.events_append] at hr
  have hrewritten := quote.rewritten_expand hoff hwords hsplices hr.of_append Rewritten.nil
  rw [List.append_nil] at hrewritten
  exact hrewritten.readable hr.of_append

theorem Flavor.readable_expand {flavor : Flavor} {config : Config} {noPrelude : Bool}
    {trees expression : Forest} {quote : Quote} (hoff : config.namespacing = false)
    (h : flavor.prepare config noPrelude trees = .ok (expression, quote))
    (hr : Readable (Forest.events trees)) (hnamed : quote.isNamed = true)
    (hsplices : quote.tail.splicesLifetime = false) :
    Readable (Forest.events (flavor.wrap expression (quote.expand config))) := by
  obtain ⟨hwords, front, hsplit⟩ := Flavor.words_of_prepare h hr hnamed
  have hclose (ticked : Bool) : Rewritten ticked [] [.closing .brace] := .close ticked (by decide)
  refine Flavor.readable_wrap ?_
  rcases Flavor.exists_of_split hsplit with ⟨hplain, rfl, rfl⟩ | ⟨hspanned, equals, greater, rfl⟩
  · rw [Forest.events_append] at hr
    rw [hplain]
    exact (quote.rewritten_expand hoff hwords hsplices hr.of_append hclose).readable hr.of_append
  · rw [hspanned]
    rw [Forest.events_append, Forest.events, Forest.events, Forest.events_append] at hr
    have htail := hr.of_append.of_append.of_append.of_append
    have hrewritten := quote.rewritten_expand hoff hwords hsplices htail hclose
    -- The span expression is kept as it is, and the declarations go with the arrow.
    refine Rewritten.readable (Rewritten.append (fun ticked => ?_) _ false) hr
    exact .arrow equals greater (Forest.events front) hrewritten

/-- What expanding a body puts out is read back from its text as it is, spacings
included: the call that a flavor makes of a body that was read from a text, and the
expanded tail on its own. Namespacing is off, every placeholder of the declarations is
for an identifier, and no `#` stands directly in front of a lifetime in the tail. -/
theorem lex_render_expand (file other : Option String) (source : String) (trees : Forest)
    (config : Config) (hlex : Forest.lex file source = .ok trees)
    (hoff : config.namespacing = false) :
    (∀ flavor noPrelude expression quote,
      Flavor.prepare flavor config noPrelude trees = .ok (expression, quote) →
      quote.isNamed = true → quote.tail.splicesLifetime = false →
      ∃ result found, flavor.expand config noPrelude trees = .ok result ∧
        Forest.lex other result.render = .ok found ∧ found.bare = result.bare) ∧
    ∀ quote, Quote.read config.style trees = .ok quote →
      quote.isNamed = true → quote.tail.splicesLifetime = false →
      ∃ result found, expand config trees = .ok result ∧
        Forest.lex other result.render = .ok found ∧ found.bare = result.bare := by
  have hr := Forest.readable_of_lex hlex
  refine ⟨fun flavor noPrelude expression quote hprepare hnamed hsplices => ?_,
    fun quote hread hnamed hsplices => ?_⟩
  · have hreadable := Flavor.readable_expand hoff hprepare hr hnamed hsplices
    obtain ⟨found, hfound, hbare⟩ := Forest.exists_lex_render hreadable other
    exact ⟨_, found, by rw [Flavor.expand, hprepare], hfound, hbare⟩
  · have hreadable := Quote.readable_expand hoff hread hr hnamed hsplices
    obtain ⟨found, hfound, hbare⟩ := Forest.exists_lex_render hreadable other
    exact ⟨_, found, by rw [expand, hread]; rfl, hfound, hbare⟩

/-- An unclosed comment, a slash joint to the arrow, a placeholder and a lifetime. -/
theorem lex_render_expand_placeholder :
    ∃ trees expression quote whole,
      Forest.lex none "s/=># use m::#n as T; x/*T(&'a T)" = .ok trees ∧
      Flavor.prepare .quoteSpanned {} false trees = .ok (expression, quote) ∧
      quote.isNamed = true ∧ quote.tail.splicesLifetime = false ∧
      Quote.read .pound trees = .ok whole ∧
      whole.isNamed = true ∧ whole.tail.splicesLifetime = false ∧
      (∃ result found, Flavor.expand .quoteSpanned {} false trees = .ok result ∧
        Forest.lex none result.render = .ok found ∧ found.bare = result.bare) ∧
      ∃ result found, expand {} trees = .ok result ∧
        Forest.lex none result.render = .ok found ∧ found.bare = result.bare := by
  have hcheck : ((Forest.lex none "s/=># use m::#n as T; x/*T(&'a T)").toOption.bind fun trees =>
      (Flavor.prepare .quoteSpanned {} false trees).toOption.bind fun prepared =>
        (Quote.read .pound trees).toOption.map fun whole =>
          prepared.2.isNamed && !prepared.2.tail.splicesLifetime &&
            (whole.isNamed && !whole.tail.splicesLifetime)) = some true := by
    decide +kernel
  obtain ⟨trees, hlex, hcheck⟩ := Option.bind_eq_some_iff.mp hcheck
  obtain ⟨⟨expression, quote⟩, hprepare, hcheck⟩ := Option.bind_eq_some_iff.mp hcheck
  obtain ⟨whole, hread, hcheck⟩ := Option.map_eq_some_iff.mp hcheck
  simp only [Bool.and_eq_true, Bool.not_eq_true'] at hcheck
  obtain ⟨⟨hnamed, hsplices⟩, hall, hnone⟩ := hcheck
  have hlex := eq_ok_of_toOption hlex
  have hprepare := eq_ok_of_toOption hprepare
  have hread := eq_ok_of_toOption hread
  obtain ⟨hcall, htail⟩ := lex_render_expand none none _ trees {} hlex rfl
  refine ⟨trees, expression, quote, whole, hlex, hprepare, hnamed, hsplices, hread, hall, hnone,
    ?_, ?_⟩
  · exact hcall .quoteSpanned false expression quote hprepare hnamed hsplices
  · exact htail whole hread hall hnone

end Qualify
