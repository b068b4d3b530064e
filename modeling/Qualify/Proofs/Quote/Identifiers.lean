import Qualify.Proofs.Name.Format
import Qualify.Proofs.Qualifier.Rooted
import Qualify.Proofs.Quote.Faithful

/-!
# Identifiers of expanded bodies

The identifiers of an expanded body come from its tail, from the paths of its declarations
and of the prelude, or are names that were put under the namespace root. The first three
were read from texts, so they are identifiers (`genuine_ofBindings`), and whatever the
seed, a name under the root is one, too. The exception is a raw identifier behind a `$`:
it keeps its `r#` behind the root, and what comes out is not one token. It comes out
exactly where `Forest.rootedRaws` finds one, and everything else is one token
(`expand_identifiers_iff`).

## Main definitions

- `Event.Single` — an identifier that is one token as text
-/

namespace Qualify

open Event (Readable)

/-! ### One token -/

/-- An identifier is one token as text: an identifier, or with the tick directly in front
of it a lifetime. -/
def Event.Single (before : Option Event) (ident : Ident) : Prop :=
  Terminal.ident? ident.text.toList = some ident.text.toList ∨
    before.any Event.isTick = true ∧
      Terminal.lifetime? ('\x27' :: ident.text.toList) = some ('\x27' :: ident.text.toList)

/-- The name of a lifetime is an identifier as well, so what stands in front of an
identifier does not matter. -/
theorem Event.single_iff {before : Option Event} {ident : Ident} :
    Event.Single before ident ↔ ident.Genuine := by
  constructor
  · rintro (hident | ⟨-, hlifetime⟩)
    · exact Terminal.isIdent_of_ident? hident
    · obtain ⟨name, hname, heq⟩ := Terminal.exists_name_of_lifetime? hlifetime
      cases heq
      exact .inl hname
  · intro hident
    have hwhole := Terminal.ident?_append hident Terminal.atEdge_nil
    rw [List.append_nil] at hwhole
    exact .inl hwhole

/-- All identifiers among trees, each with what stands directly in front of it. -/
theorem Forest.forallIdent_iff {p : Ident → Prop} {trees : Forest} :
    Forest.ForallIdent p trees ↔
      ∀ front ident back, Forest.events trees = front ++ .token (.ident ident) :: back →
        p ident := by
  constructor
  · intro h front ident back heq
    exact h ident (by rw [heq]; simp)
  · intro h ident hmem
    obtain ⟨front, back, heq⟩ := List.append_of_mem hmem
    exact h front ident back heq

/-! ### Identifiers from a text -/

/-- Identifiers among readable events are genuine. -/
theorem Event.Readable.genuine {events : List Event} (h : Readable events) {ident : Ident}
    (hmem : .token (.ident ident) ∈ events) : ident.Genuine := by
  obtain ⟨front, back, rfl⟩ := List.append_of_mem hmem
  cases h.of_append with
  | ident isIdent _ => exact isIdent

namespace Segment

variable {p : Ident → Prop}

theorem forallIdent_rooted {segment : Segment} (h : Forest.ForallIdent p segment.trees) :
    Forest.ForallIdent p segment.rooted := by
  have hcolon (spacing : Spacing) :
      Forest.ForallIdent p [.punct { text := ":", spacing }] :=
    Forest.forallIdent_of_ident?_eq_none rfl
  exact Forest.forallIdent_cons.mpr ⟨hcolon _, Forest.forallIdent_cons.mpr ⟨hcolon _, h⟩⟩

/-- The trees of a path have the identifiers of its segments. -/
theorem forallIdent_path {path : Path}
    (h : ∀ segment ∈ path, Forest.ForallIdent p segment.trees) :
    Forest.ForallIdent p path.trees := by
  cases path with
  | nil => exact Forest.forallIdent_nil
  | cons first rest =>
    obtain ⟨hfirst, hrest⟩ := List.forall_mem_cons.mp h
    refine Forest.forallIdent_append.mpr ⟨?_, ?_⟩
    · split
      · exact hfirst
      · exact forallIdent_rooted hfirst
    · clear h hfirst
      induction rest with
      | nil => exact Forest.forallIdent_nil
      | cons segment rest ih =>
        obtain ⟨hsegment, hrest⟩ := List.forall_mem_cons.mp hrest
        exact Forest.forallIdent_append.mpr ⟨forallIdent_rooted hsegment, ih hrest⟩

end Segment

/-- Declarations at the head of readable trees bind paths of genuine identifiers. -/
theorem Declaration.genuine_of_leading {style : Style} {stop : Span} {trees tail : Forest}
    {bindings : List Binding} (h : leading style stop trees = .ok (bindings, tail))
    (hr : Readable (Forest.events trees)) :
    ∀ binding ∈ bindings, Forest.ForallIdent Ident.Genuine binding.path.trees := by
  intro binding hmem
  have hwithin := (within_of_leading h List.infix_rfl).1 binding hmem
  refine Segment.forallIdent_path fun segment hsegment ident hident => ?_
  exact hr.genuine ((hwithin segment hsegment).2.subset hident)

/-- Where declared names stand for paths of genuine identifiers, all names in scope do. -/
theorem Scope.genuine_ofBindings {bindings : List Binding} (config : Config)
    (h : ∀ binding ∈ bindings, Forest.ForallIdent Ident.Genuine binding.path.trees) :
    (Scope.ofBindings bindings config).Genuine := by
  intro name binding hlookup
  rcases Scope.mem_all_ofBindings (List.mem_of_find?_eq_some hlookup) with hmem | ⟨std, hmem⟩
  · exact h binding hmem
  · obtain ⟨trees, bindings, hr, hleading, hmem⟩ := Prelude.exists_leading hmem
    exact Declaration.genuine_of_leading hleading hr binding hmem

/-! ### Expanded bodies -/

theorem exists_read_of_expand {config : Config} {trees result : Forest}
    (h : expand config trees = .ok result) :
    ∃ quote, Quote.read config.style trees = .ok quote ∧ quote.expand config = result := by
  rw [expand] at h
  cases hread : Quote.read config.style trees with
  | error error =>
    rw [hread] at h
    cases h
  | ok quote =>
    rw [hread] at h
    exact ⟨quote, rfl, Except.ok.inj h⟩

/-- What can be said of all identifiers can be said of those of an expanded body, if it
holds of the raw ones that are put under the namespace root. -/
theorem Quote.forallIdent_expand {quote : Quote} {config : Config} {trees : Forest}
    {p : Ident → Prop} (hon : config.namespacing = true)
    (h : Quote.read config.style trees = .ok quote) (hr : Readable (Forest.events trees))
    (hp : ∀ ident : Ident, ident.Genuine → p ident) :
    Forest.ForallIdent p (quote.expand config) ↔
      ∀ raw ∈ Forest.rootedRaws [] quote.tail, p (raw.under config.namespaceRoot) := by
  have hleading := Quote.leading_of_read h
  have hscope : (quote.scope config).Genuine :=
    Scope.genuine_ofBindings config (Declaration.genuine_of_leading hleading hr)
  obtain ⟨front, rfl⟩ := (Declaration.within_of_leading hleading List.infix_rfl).2
  have htail : Readable (Forest.events quote.tail ++ []) := by
    rw [Forest.events_append] at hr
    rw [List.append_nil]
    exact hr.of_append
  rw [Quote.expand, Qualifier.qualify_eq_level, Qualifier.ofScope, if_pos hon]
  exact Qualifier.forallIdent_level config.isName_namespaceRoot hscope hp quote.tail
    (Qualifier.tracked_start _) htail

/-- With namespacing on, every identifier of an expanded body is one token as text, but for
the raw identifiers of the tail that a `$` puts under the namespace root: all of the
identifiers are if there is no such raw identifier, and if there are any, exactly what
comes of these is not. -/
theorem expand_identifiers_iff (config : Config) (file : Option String) (source : String)
    (trees result : Forest) (hlex : Forest.lex file source = .ok trees)
    (hon : config.namespacing = true) (hexpand : expand config trees = .ok result) :
    ∃ quote, Quote.read config.style trees = .ok quote ∧
      ((∀ front ident back, Forest.events result = front ++ .token (.ident ident) :: back →
          Event.Single front.getLast? ident) ↔ Forest.rootedRaws [] quote.tail = []) ∧
      ∀ front ident back, Forest.events result = front ++ .token (.ident ident) :: back →
        (Event.Single front.getLast? ident ↔
          ∀ raw ∈ Forest.rootedRaws [] quote.tail, ident ≠ raw.under config.namespaceRoot) := by
  have hr := Forest.readable_of_lex hlex
  obtain ⟨quote, hread, rfl⟩ := exists_read_of_expand hexpand
  have hraw {raw : Ident} (hmem : raw ∈ Forest.rootedRaws [] quote.tail) :
      ¬ (raw.under config.namespaceRoot).Genuine :=
    Ident.not_genuine_under (Forest.isRaw_of_mem_rootedRaws _ hmem) config.isName_namespaceRoot
  simp only [Event.single_iff]
  refine ⟨quote, hread, ?_, ?_⟩
  · rw [← Forest.forallIdent_iff, Quote.forallIdent_expand hon hread hr fun _ => id,
      List.eq_nil_iff_forall_not_mem]
    exact forall₂_congr fun raw hmem => iff_of_false (hraw hmem) id
  · -- Every identifier is genuine or comes of a raw one, and never both.
    have hall := (Quote.forallIdent_expand (p := fun ident => ident.Genuine ∨
        ∃ raw ∈ Forest.rootedRaws [] quote.tail, ident = raw.under config.namespaceRoot)
      hon hread hr fun _ => .inl).mpr fun raw hmem => .inr ⟨raw, hmem, rfl⟩
    intro front ident back heq
    constructor
    · rintro hgenuine raw hmem rfl
      exact hraw hmem hgenuine
    · intro hother
      rcases Forest.forallIdent_iff.mp hall front ident back heq with hgenuine | ⟨raw, hmem, heq⟩
      · exact hgenuine
      · exact absurd heq (hother raw hmem)

/-- Under a root whose seed has characters that no name can hold: a raw identifier behind
three `$`, next to one that a declaration brings in; and a body where every `$` in front of
a raw identifier passes through, next to names and a lifetime under the root. -/
theorem expand_identifiers_raw :
    let config : Config := { namespacing := true, seed := some "\x7b$é" }
    config.namespacing = true ∧
    (∃ trees result, Forest.lex none "# use a::r#type as T; ($$$r#x T &$'b)" = .ok trees ∧
      expand config trees = .ok result ∧
      ¬ ∀ front ident back, Forest.events result = front ++ .token (.ident ident) :: back →
        Event.Single front.getLast? ident) ∧
    ∃ trees result, Forest.lex none "# use a::r#type as T; ($$r#x T #$r#y $x &$'b)" = .ok trees ∧
      expand config trees = .ok result ∧
      ∀ front ident back, Forest.events result = front ++ .token (.ident ident) :: back →
        Event.Single front.getLast? ident := by
  intro config
  have hfound (source : String) (texts : List String)
      (h : ((Forest.lex none source).toOption.bind fun trees =>
        (Quote.read .pound trees).toOption.map fun quote =>
          (Forest.rootedRaws [] quote.tail).map Ident.text) = some texts) :
      ∃ trees quote, Forest.lex none source = .ok trees ∧
        Quote.read .pound trees = .ok quote ∧
          (Forest.rootedRaws [] quote.tail).map Ident.text = texts := by
    obtain ⟨trees, hlex, h⟩ := Option.bind_eq_some_iff.mp h
    obtain ⟨quote, hread, htexts⟩ := Option.map_eq_some_iff.mp h
    exact ⟨trees, quote, eq_ok_of_toOption hlex, eq_ok_of_toOption hread, htexts⟩
  have hexpand {trees : Forest} {quote : Quote} (h : Quote.read .pound trees = .ok quote) :
      expand config trees = .ok (quote.expand config) := by
    rw [expand, h]
    rfl
  refine ⟨rfl, ?_, ?_⟩
  · obtain ⟨trees, quote, hlex, hread, htexts⟩ :=
      hfound "# use a::r#type as T; ($$$r#x T &$'b)" ["r#x"] (by decide +kernel)
    obtain ⟨whole, hwhole, hiff, -⟩ :=
      expand_identifiers_iff config none _ trees _ hlex rfl (hexpand hread)
    cases hread.symm.trans hwhole
    refine ⟨trees, _, hlex, hexpand hread, fun hall => ?_⟩
    rw [hiff.mp hall] at htexts
    cases htexts
  · obtain ⟨trees, quote, hlex, hread, htexts⟩ :=
      hfound "# use a::r#type as T; ($$r#x T #$r#y $x &$'b)" [] (by decide +kernel)
    obtain ⟨whole, hwhole, hiff, -⟩ :=
      expand_identifiers_iff config none _ trees _ hlex rfl (hexpand hread)
    cases hread.symm.trans hwhole
    exact ⟨trees, _, hlex, hexpand hread, hiff.mpr (List.map_eq_nil_iff.mp htexts)⟩

end Qualify
