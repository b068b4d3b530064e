import Qualify.Cursor
import Qualify.Proofs.Declaration.Grammar

/-!
# Declarations are read as the grammar says

The readers of a level take the path that the next item continues, so the first
item of a level may already have some of its segments behind it. `Clauses.ValidFrom`
and `Clauses.bindingsFrom` account for that: they put the first item under one path
and the others under another. With them each reader has one soundness and one
completeness lemma, and both meet in `Cursor.read_item_eq_ok_iff`.
-/

namespace Qualify

namespace Declaration

/-- Where reading items stops: the end of the level or, outside braces, a `;`. -/
def Ends (place : Place) (left : Forest) : Prop :=
  left = [] ∨ place = .top ∧ ∃ tree rest, left = tree :: rest ∧ tree.isPunct ";" = true

/-- The rules, with the first item under `path` and the others under `parent`. -/
def Clauses.ValidFrom (parent path : Path) : List Clause → Prop
  | [] => True
  | clause :: clauses => clause.Valid path ∧ Clauses.Valid parent clauses

/-- What items bind, with the first item under `path` and the others under
`parent`. -/
def Clauses.bindingsFrom (parent path : Path) : List Clause → List Binding
  | [] => []
  | clause :: clauses => clause.bindings path ++ Clauses.bindings parent clauses

theorem Clauses.validFrom_self (path : Path) (clauses : List Clause) :
    Clauses.ValidFrom path path clauses ↔ Clauses.Valid path clauses := by
  cases clauses <;> simp [Clauses.ValidFrom, Clauses.Valid]

theorem Clauses.bindingsFrom_self (path : Path) (clauses : List Clause) :
    Clauses.bindingsFrom path path clauses = Clauses.bindings path clauses := by
  cases clauses <;> simp [Clauses.bindingsFrom, Clauses.bindings]

/-! ### Trees that start and end items -/

theorem isPunct_eq_false_of_isIdent {tree : Tree} {name : String} (mark : String)
    (h : tree.isIdent name = true) : tree.isPunct mark = false := by
  unfold Tree.isIdent at h
  split at h
  · rfl
  · cases h

theorem isPunct_eq_false_of_isPunct {tree : Tree} {mark : String} (other : String)
    (h : tree.isPunct mark = true) (hne : mark ≠ other) : tree.isPunct other = false := by
  unfold Tree.isPunct at h ⊢
  split at h
  · simp only [decide_eq_true_eq] at h
    simpa [h] using hne
  · cases h

theorem exists_punct_of_isPunct {tree : Tree} {mark : String} (h : tree.isPunct mark = true) :
    ∃ value, tree = .punct value := by
  unfold Tree.isPunct at h
  split at h
  · exact ⟨_, rfl⟩
  · cases h

theorem isIdent_eq_false_of_isPunct {tree : Tree} {mark : String} (name : String)
    (h : tree.isPunct mark = true) : tree.isIdent name = false := by
  obtain ⟨value, rfl⟩ := exists_punct_of_isPunct h
  rfl

theorem isBraces_eq_false_of_isPunct {tree : Tree} {mark : String}
    (h : tree.isPunct mark = true) : tree.isBraces = false := by
  obtain ⟨value, rfl⟩ := exists_punct_of_isPunct h
  rfl

theorem isPunct_of_isPunctSpaced {tree : Tree} {mark : String} {spacing : Spacing}
    (h : tree.isPunctSpaced mark spacing = true) : tree.isPunct mark = true := by
  unfold Tree.isPunctSpaced at h
  split at h
  · simp only [Bool.and_eq_true] at h
    exact h.1
  · cases h

theorem exists_group_of_isBraces {tree : Tree} (h : tree.isBraces = true) :
    ∃ inner span, tree = .group .brace inner span := by
  unfold Tree.isBraces at h
  split at h
  · exact ⟨_, _, rfl⟩
  · cases h

theorem exists_ident_of_ident? {tree : Tree} {ident : Ident} (h : tree.ident? = some ident) :
    tree = .ident ident := by
  unfold Tree.ident? at h
  split at h
  · cases h
    rfl
  · cases h

theorem exists_ident_of_isIdent {tree : Tree} {name : String} (h : tree.isIdent name = true) :
    ∃ ident, tree = .ident ident ∧ ident.text = name := by
  unfold Tree.isIdent at h
  split at h
  · next ident => exact ⟨ident, rfl, of_decide_eq_true h⟩
  · cases h

/-- A mark other than `#` and `*` starts no segment. -/
theorem segmentFollows_of_isPunct {tree : Tree} {mark : String} (rest : Forest)
    (h : tree.isPunct mark = true) (hpound : mark ≠ "#") (hglob : mark ≠ "*") :
    segmentFollows (tree :: rest) = false := by
  have hident : tree.ident? = none := by
    unfold Tree.isPunct at h
    split at h
    · rfl
    · cases h
  simp [segmentFollows, hident, isBraces_eq_false_of_isPunct h,
    isPunct_eq_false_of_isPunct "#" h hpound, isPunct_eq_false_of_isPunct "*" h hglob]

/-- Neither end of a level is a segment or a group. -/
theorem Ends.segmentFollows {place : Place} {left : Forest} (h : Ends place left) :
    segmentFollows left = false := by
  rcases h with rfl | ⟨-, tree, rest, rfl, hs⟩
  · rfl
  · exact segmentFollows_of_isPunct rest hs (by decide) (by decide)

/-! ### Ending a chain -/

theorem dropSelf_concat (front : Path) (last : Segment) :
    Path.dropSelf (front ++ [last]) = if last.isSelf then front else front ++ [last] := by
  simp [Path.dropSelf, Path.endsInSelf]

theorem Clause.path_of_not_self (outer : Path) (front : List Segment) {last : Segment}
    (h : last.isSelf = false) : Clause.path outer front last = outer ++ front ++ [last] := by
  rw [Clause.path, dropSelf_concat, h, if_neg Bool.false_ne_true]

theorem Clause.selfless_of_not_self (outer : Path) {front : List Segment} {last : Segment}
    (hfront : ∀ segment ∈ front, segment.isSelf = false) (h : last.isSelf = false) :
    Clause.Selfless outer front last := by
  refine ⟨hfront, fun hs => ?_⟩
  rw [h] at hs
  cases hs

/-- A chain has a target unless it is `self` alone. -/
theorem target_eq_ok_iff {front path : Path} {last : Segment} :
    Binding.target front last = .ok path ↔
      Clause.Selfless front [] last ∧ path = Clause.path front [] last := by
  unfold Binding.target Clause.Selfless Clause.path
  cases last with
  | name ident =>
    by_cases hs : ident.text = "self"
    · by_cases hf : front = []
      · simp [hs, hf, Segment.isSelf]
      · simp [hs, hf, Segment.isSelf, dropSelf_concat, eq_comm (a := path)]
    · simp [hs, Segment.isSelf, dropSelf_concat, eq_comm (a := path)]
  | placeholder marker tree => simp [Segment.isSelf, dropSelf_concat, eq_comm (a := path)]

theorem Clause.Selfless.path_ne_nil {outer : Path} {front : List Segment} {last : Segment}
    (h : Clause.Selfless outer front last) : Clause.path outer front last ≠ [] := by
  rw [Clause.path, dropSelf_concat]
  split
  · next hs => exact h.2 hs
  · simp

theorem Clause.path_eq (outer : Path) (front : List Segment) (last : Segment) :
    Clause.path outer front last = Clause.path (outer ++ front) [] last := by
  simp [Clause.path]

theorem Clause.Selfless.enclosed {outer : Path} {front : List Segment} {last : Segment}
    (h : Clause.Selfless outer front last) : Clause.Selfless (outer ++ front) [] last := by
  refine ⟨by simp, fun hs => ?_⟩
  rw [List.append_nil]
  exact h.2 hs

/-- A chain is bound under its own name exactly when it is a valid plain item. -/
theorem plain_eq_ok_iff {front : Path} {last : Segment} {binding : Binding} :
    Binding.plain front last = .ok binding ↔
      (Clause.plain [] last).Valid front ∧
        (Clause.plain [] last).bindings front = [binding] := by
  simp only [Binding.plain, Clause.Valid, Clause.bindings, Clause.plainBinding]
  cases ht : Binding.target front last with
  | error error =>
    have hn : ¬ Clause.Selfless front [] last := by
      intro hs
      rw [target_eq_ok_iff.mpr ⟨hs, rfl⟩] at ht
      cases ht
    simp [hn]
  | ok path =>
    obtain ⟨hs, rfl⟩ := target_eq_ok_iff.mp ht
    have hne := hs.path_ne_nil
    cases hl : (Clause.path front [] last).getLast? with
    | none => exact absurd (List.getLast?_eq_none_iff.mp hl) hne
    | some segment => cases segment <;> simp [Segment.bindingName, hs, hl]

theorem Clause.Valid.exists_plain {outer : Path} {front : List Segment} {last : Segment}
    (h : (Clause.plain front last).Valid outer) :
    ∃ binding, Binding.plain (outer ++ front) last = .ok binding ∧
      (Clause.plain front last).bindings outer = [binding] := by
  obtain ⟨hself, ident, hlast⟩ := h
  rw [Clause.path_eq] at hlast
  refine ⟨⟨ident, Clause.path (outer ++ front) [] last⟩, ?_, ?_⟩
  · refine plain_eq_ok_iff.mpr ⟨⟨hself.enclosed, ident, hlast⟩, ?_⟩
    simp only [Clause.bindings, Clause.plainBinding, hlast]
  · rw [Clause.bindings, Clause.path_eq, Clause.plainBinding, hlast]

/-! ### What is read is in the grammar -/

theorem prepend_eq_ok {bindings all : List Binding} {reading : Reading} {left : Forest}
    (h : prepend bindings reading = .ok (all, left)) :
    ∃ more, reading = .ok (more, left) ∧ all = bindings ++ more := by
  cases reading with
  | error failure => cases h
  | ok value =>
    cases h
    exact ⟨value.1, rfl, rfl⟩

theorem semicolon_eq_ok {place : Place} {bindings all : List Binding} {tree : Tree}
    {rest left : Forest} (h : semicolon place bindings tree rest = .ok (all, left))
    (hs : tree.isPunct ";" = true) : all = bindings ∧ left = tree :: rest ∧ Ends place left := by
  cases place with
  | nested => cases h
  | top =>
    cases h
    exact ⟨rfl, rfl, .inr ⟨rfl, tree, rest, rfl, hs⟩⟩

/-- Items with the first one under `path`, read off the front of a level. -/
def ItemsRead (place : Place) (parent path : Path) (trees : Forest) (bindings : List Binding)
    (left : Forest) : Prop :=
  ∃ clauses used, trees = used ++ left ∧ Ends place left ∧ Clauses.Spelled clauses used ∧
    Clauses.ValidFrom parent path clauses ∧ bindings = Clauses.bindingsFrom parent path clauses

/-- What follows an item, read off the front of a level. -/
def RestRead (place : Place) (parent : Path) (trees : Forest) (bindings : List Binding)
    (left : Forest) : Prop :=
  ∃ clauses used, trees = used ++ left ∧ Ends place left ∧ Clauses.Continued clauses used ∧
    Clauses.Valid parent clauses ∧ bindings = Clauses.bindings parent clauses

/-- An item and what follows it make up a level. -/
theorem RestRead.cons {place : Place} {parent path : Path} {trees rest left : Forest}
    {clause : Clause} {bindings : List Binding} (h : RestRead place parent rest bindings left)
    (hs : clause.Spelled trees) (hv : clause.Valid path) :
    ItemsRead place parent path (trees ++ rest) (clause.bindings path ++ bindings) left := by
  obtain ⟨clauses, used, rfl, hends, hcontinued, hvalid, rfl⟩ := h
  refine ⟨clause :: clauses, trees ++ used, ?_, hends, .cons hs hcontinued, ⟨hv, hvalid⟩, rfl⟩
  rw [List.append_assoc]

theorem RestRead.stop {place : Place} (parent : Path) {left : Forest} (h : Ends place left) :
    RestRead place parent left [] left :=
  ⟨[], [], rfl, h, .stop, trivial, rfl⟩

theorem RestRead.comma {place : Place} {parent : Path} {trees left : Forest} {tree : Tree}
    {bindings : List Binding} (h : ItemsRead place parent parent trees bindings left)
    (hc : tree.isPunct "," = true) : RestRead place parent (tree :: trees) bindings left := by
  obtain ⟨clauses, used, rfl, hends, hspelled, hvalid, rfl⟩ := h
  refine ⟨clauses, tree :: used, rfl, hends, .comma hc hspelled, ?_, ?_⟩
  · exact (Clauses.validFrom_self parent clauses).mp hvalid
  · exact Clauses.bindingsFrom_self parent clauses

/-- A segment and a separator in front of items continue the path of the first. -/
theorem ItemsRead.under {place : Place} {parent path : Path} {trees left : Forest}
    {segment : Segment} {first second : Tree} {bindings : List Binding}
    (h : ItemsRead place parent (path ++ [segment]) trees bindings left)
    (hf : segmentFollows trees = true) (hm : segment.Marked) (hs : first.Separate second)
    (hself : segment.isSelf = false) :
    ItemsRead place parent path (segment.trees ++ first :: second :: trees) bindings left := by
  obtain ⟨clauses, used, rfl, hends, hspelled, hvalid, rfl⟩ := h
  cases hspelled with
  | nil =>
    rw [List.nil_append, hends.segmentFollows] at hf
    cases hf
  | @cons clause clauses trees rest spelled continued =>
    refine ⟨clause.under segment :: clauses, segment.trees ++ first :: second :: trees ++ rest,
      ?_, hends, .cons (spelled.under hm hs) continued, ⟨hvalid.1.under hself, hvalid.2⟩, ?_⟩
    · simp
    · simp only [Clauses.bindingsFrom, Clause.bindings_under]

/-- A plain item is a chain that is bound under its own name. -/
theorem RestRead.plain {place : Place} {parent front : Path} {last : Segment} {trees left : Forest}
    {binding : Binding} {bindings : List Binding} (h : RestRead place parent trees bindings left)
    (hp : Binding.plain front last = .ok binding) (hm : last.Marked) :
    ItemsRead place parent front (last.trees ++ trees) (binding :: bindings) left := by
  obtain ⟨hvalid, hbinding⟩ := plain_eq_ok_iff.mp hp
  have hread := h.cons (.plain .nil hm) hvalid
  rwa [hbinding] at hread

mutual

/-- Items that are read are in the grammar. -/
theorem itemsRead_of_items (place : Place) (parent path : Path) (stop : Span) :
    ∀ (trees : Forest) {bindings : List Binding} {left : Forest},
      items place parent path stop trees = .ok (bindings, left) →
        ItemsRead place parent path trees bindings left
  | [], bindings, left, h => by
    unfold items at h
    cases h
    exact ⟨[], [], rfl, .inl rfl, .nil, trivial, rfl⟩
  | tree :: rest, bindings, left, h => by
    unfold items at h
    split at h
    · next hs =>
      obtain ⟨rfl, rfl, hends⟩ := semicolon_eq_ok h hs
      exact ⟨[], [], rfl, hends, .nil, trivial, rfl⟩
    split at h
    · next hb =>
      split at h
      · cases h
      · next inside hmembers =>
        obtain ⟨inner, span, clauses, rfl, hspelled, hvalid, rfl⟩ :=
          clauses_of_members path tree hb hmembers
        obtain ⟨more, hmore, rfl⟩ := prepend_eq_ok h
        have hrest := restRead_of_separated .group place parent stop rest hmore
        have hgroup : (Clause.group [] clauses).Valid path := by
          simpa only [Clause.Valid, List.append_nil, List.not_mem_nil, false_implies, implies_true,
            true_and] using hvalid
        have hread := hrest.cons (.group span .nil hspelled) hgroup
        simpa only [Clause.bindings, List.append_nil, List.nil_append, List.cons_append] using hread
    split at h
    · cases h
    split at h
    · exact itemsRead_of_chain place parent path (.name _) stop rest trivial h
    · split at h
      · next hpound =>
        split at h
        · cases h
        · next value after =>
          exact itemsRead_of_chain place parent path (.placeholder _ value) stop after hpound h
      · cases h
    · cases h
termination_by trees => sizeOf trees

/-- What is read after a segment makes an item of the grammar with it. -/
theorem itemsRead_of_chain (place : Place) (parent front : Path) (last : Segment) (stop : Span) :
    ∀ (trees : Forest) {bindings : List Binding} {left : Forest}, last.Marked →
      chain place parent front last stop trees = .ok (bindings, left) →
        ItemsRead place parent front (last.trees ++ trees) bindings left
  | [], bindings, left, hm, h => by
    unfold chain at h
    split at h
    · cases h
    · next binding hplain =>
      cases h
      exact (RestRead.stop parent (.inl rfl)).plain hplain hm
  | tree :: rest, bindings, left, hm, h => by
    unfold chain at h
    split at h
    · next hcomma =>
      split at h
      · cases h
      · next binding hplain =>
        obtain ⟨more, hmore, rfl⟩ := prepend_eq_ok h
        have hread := itemsRead_of_items place parent parent stop rest hmore
        exact (RestRead.comma hread hcomma).plain hplain hm
    split at h
    · next hs =>
      split at h
      · cases h
      · next binding hplain =>
        obtain ⟨rfl, rfl, hends⟩ := semicolon_eq_ok h hs
        exact (RestRead.stop parent hends).plain hplain hm
      · cases h
    split at h
    · next has =>
      split at h
      · cases h
      · next path htarget =>
        obtain ⟨hself, rfl⟩ := target_eq_ok_iff.mp htarget
        split at h
        · cases h
        · next value after =>
          split at h
          · cases h
          · next name hname =>
            obtain rfl := exists_ident_of_ident? hname
            obtain ⟨more, hmore, rfl⟩ := prepend_eq_ok h
            have hrest := restRead_of_separated .renaming place parent stop after hmore
            have hvalid : (Clause.renamed [] last name).Valid front := hself
            have hread := hrest.cons (.renamed name .nil hm has) hvalid
            simpa only [Clause.bindings, List.nil_append, List.append_assoc, List.cons_append]
              using hread
    split at h
    · next second after =>
      split at h
      · next hseparate =>
        split at h
        · cases h
        · next hself =>
          split at h
          · next hfollows =>
            have hread := itemsRead_of_items place parent (front ++ [last]) stop after h
            simp only [Bool.and_eq_true] at hseparate
            exact hread.under hfollows hm hseparate (by simpa using hself)
          · cases h
      · cases h
    · cases h
termination_by trees => sizeOf trees

/-- What is read after an alias or a group is in the grammar. -/
theorem restRead_of_separated (ended : Ended) (place : Place) (parent : Path) (stop : Span) :
    ∀ (trees : Forest) {bindings : List Binding} {left : Forest},
      separated ended place parent stop trees = .ok (bindings, left) →
        RestRead place parent trees bindings left
  | [], bindings, left, h => by
    unfold separated at h
    cases h
    exact .stop parent (.inl rfl)
  | tree :: rest, bindings, left, h => by
    unfold separated at h
    split at h
    · next hs =>
      obtain ⟨rfl, rfl, hends⟩ := semicolon_eq_ok h hs
      exact .stop parent hends
    split at h
    · next hcomma => exact .comma (itemsRead_of_items place parent parent stop rest h) hcomma
    split at h
    · cases h
    split at h <;> cases h
termination_by trees => sizeOf trees

/-- The whole contents of a group that is read are items of the grammar. -/
theorem clauses_of_members (path : Path) :
    ∀ (tree : Tree) {bindings : List Binding}, tree.isBraces = true →
      members path tree = .ok bindings →
        ∃ inner span clauses, tree = .group .brace inner span ∧ Clauses.Spelled clauses inner ∧
          Clauses.Valid path clauses ∧ bindings = Clauses.bindings path clauses
  | .token _, bindings, hb, h => by cases hb
  | .group delimiter inner span, bindings, hb, h => by
    obtain ⟨_, _, hgroup⟩ := exists_group_of_isBraces hb
    cases hgroup
    unfold members at h
    split at h
    · cases h
    · next inside left hitems =>
      cases h
      obtain ⟨clauses, used, rfl, hends, hspelled, hvalid, rfl⟩ :=
        itemsRead_of_items .nested path path span inner hitems
      obtain rfl : left = [] := by simpa [Ends] using hends
      refine ⟨used ++ [], span, clauses, rfl, ?_, ?_, ?_⟩
      · simpa using hspelled
      · exact (Clauses.validFrom_self path clauses).mp hvalid
      · exact Clauses.bindingsFrom_self path clauses
termination_by tree => sizeOf tree

end

/-! ### What is in the grammar is read -/

/-- A segment at the front of a level starts a chain. -/
theorem items_segment (place : Place) (parent path : Path) (stop : Span) {segment : Segment}
    (rest : Forest) (h : segment.Marked) :
    items place parent path stop (segment.trees ++ rest) =
      chain place parent path segment stop rest := by
  cases segment with
  | name ident =>
    rw [Segment.trees, List.singleton_append]
    unfold items
    simp [Tree.isPunct, Tree.isBraces]
  | placeholder marker tree =>
    have hm : marker.text = "#" := h
    rw [Segment.trees, List.cons_append, List.singleton_append]
    unfold items
    simp [Tree.isPunct, Tree.isBraces, hm]

/-- A separator leads from a segment to the next. -/
theorem chain_separator (place : Place) (parent front : Path) (stop : Span) {last : Segment}
    {first second : Tree} {after : Forest} (h : first.Separate second)
    (hself : last.isSelf = false) (hf : segmentFollows after = true) :
    chain place parent front last stop (first :: second :: after) =
      items place parent (front ++ [last]) stop after := by
  have hcolon := isPunct_of_isPunctSpaced h.1
  have hcomma := isPunct_eq_false_of_isPunct "," hcolon (by decide)
  have hsemicolon := isPunct_eq_false_of_isPunct ";" hcolon (by decide)
  have has := isIdent_eq_false_of_isPunct "as" hcolon
  unfold chain
  simp [hcomma, hsemicolon, has, h.1, h.2, hself, hf]

theorem segmentFollows_segment {segment : Segment} (rest : Forest) (h : segment.Marked) :
    segmentFollows (segment.trees ++ rest) = true := by
  cases segment with
  | name ident => rfl
  | placeholder marker tree =>
    have hm : marker.text = "#" := h
    simp [segmentFollows, Segment.trees, Tree.isPunct, hm]

theorem Led.segmentFollows {front : List Segment} {lead rest : Forest} (h : Led front lead)
    (hf : segmentFollows rest = true) : segmentFollows (lead ++ rest) = true := by
  cases h with
  | nil => exact hf
  | cons marked separate led =>
    rw [List.append_assoc]
    exact segmentFollows_segment _ marked

/-- Segments with separators behind them become part of the path. -/
theorem items_led {front : List Segment} {lead rest : Forest} (h : Led front lead)
    (place : Place) (parent path : Path) (stop : Span)
    (hself : ∀ segment ∈ front, segment.isSelf = false) (hf : segmentFollows rest = true) :
    items place parent path stop (lead ++ rest) =
      items place parent (path ++ front) stop rest := by
  induction h generalizing path with
  | nil => simp
  | @cons segment first second front lead marked separate led ih =>
    have hsegment := hself segment List.mem_cons_self
    have hfront : ∀ other ∈ front, other.isSelf = false :=
      fun other ho => hself other (List.mem_cons_of_mem _ ho)
    rw [List.append_assoc, items_segment _ _ _ _ _ marked, List.cons_append, List.cons_append,
      chain_separator _ _ _ _ separate hsegment (led.segmentFollows hf),
      ih (path ++ [segment]) hfront, List.append_assoc, List.singleton_append]

theorem items_ends {place : Place} {left : Forest} (parent path : Path) (stop : Span)
    (h : Ends place left) : items place parent path stop left = .ok ([], left) := by
  rcases h with rfl | ⟨rfl, tree, rest, rfl, hs⟩
  · unfold items
    rfl
  · unfold items
    simp [hs, semicolon]

theorem separated_ends {place : Place} {left : Forest} (ended : Ended) (parent : Path)
    (stop : Span) (h : Ends place left) :
    separated ended place parent stop left = .ok ([], left) := by
  rcases h with rfl | ⟨rfl, tree, rest, rfl, hs⟩
  · unfold separated
    rfl
  · unfold separated
    simp [hs, semicolon]

theorem chain_ends {place : Place} {left : Forest} {front : Path} {last : Segment}
    {binding : Binding} (parent : Path) (stop : Span) (h : Ends place left)
    (hp : Binding.plain front last = .ok binding) :
    chain place parent front last stop left = .ok ([binding], left) := by
  rcases h with rfl | ⟨rfl, tree, rest, rfl, hs⟩
  · unfold chain
    simp [hp]
  · have hcomma := isPunct_eq_false_of_isPunct "," hs (by decide)
    unfold chain
    simp [hs, hcomma, hp, semicolon]

theorem chain_comma {front : Path} {last : Segment} {binding : Binding} {tree : Tree}
    (place : Place) (parent : Path) (stop : Span) (rest : Forest) (hc : tree.isPunct "," = true)
    (hp : Binding.plain front last = .ok binding) :
    chain place parent front last stop (tree :: rest) =
      prepend [binding] (items place parent parent stop rest) := by
  unfold chain
  simp [hc, hp]

theorem chain_alias {front : Path} {last : Segment} {word : Tree} (place : Place) (parent : Path)
    (stop : Span) (name : Ident) (rest : Forest) (has : word.isIdent "as" = true)
    (hs : Clause.Selfless front [] last) :
    chain place parent front last stop (word :: .ident name :: rest) =
      prepend [⟨name, Clause.path front [] last⟩] (separated .renaming place parent stop rest) := by
  have hcomma := isPunct_eq_false_of_isIdent "," has
  have hsemicolon := isPunct_eq_false_of_isIdent ";" has
  have htarget := target_eq_ok_iff.mpr ⟨hs, rfl⟩
  unfold chain
  simp [hcomma, hsemicolon, has, htarget, Tree.ident?]

theorem separated_comma {tree : Tree} (ended : Ended) (place : Place) (parent : Path)
    (stop : Span) (rest : Forest) (hc : tree.isPunct "," = true) :
    separated ended place parent stop (tree :: rest) = items place parent parent stop rest := by
  have hsemicolon := isPunct_eq_false_of_isPunct ";" hc (by decide)
  unfold separated
  simp [hc, hsemicolon]

/-- A group at the front of a level is read on its own. -/
theorem items_group {path : Path} {inner : Forest} {span : Span} {bindings : List Binding}
    (place : Place) (parent : Path) (stop : Span) (rest : Forest)
    (h : items .nested path path span inner = .ok (bindings, [])) :
    items place parent path stop (.group .brace inner span :: rest) =
      prepend bindings (separated .group place parent stop rest) := by
  have hm : members path (.group .brace inner span) = .ok bindings := by
    unfold members
    rw [h]
  unfold items
  simp [Tree.isPunct, Tree.isBraces, hm]

-- The three lemmas follow a derivation: the items of a level, and what follows an item that
-- ended in an alias or a group, or as it is.
mutual

/-- Items of the grammar are read. -/
theorem items_of_spelled :
    ∀ {clauses : List Clause} {used : Forest}, Clauses.Spelled clauses used →
      ∀ (place : Place) (parent path : Path) (stop : Span) {left : Forest},
        Clauses.ValidFrom parent path clauses → Ends place left →
          items place parent path stop (used ++ left) =
            .ok (Clauses.bindingsFrom parent path clauses, left)
  | _, _, .nil, place, parent, path, stop, left, _, hends => items_ends parent path stop hends
  | _, _, .cons (.group span led spelled) continued, place, parent, path, stop, left, hv, hends => by
    obtain ⟨⟨hself, hmembers⟩, hv⟩ := hv
    have hinner := items_of_spelled spelled .nested _ _ span
      ((Clauses.validFrom_self _ _).mpr hmembers) (.inl rfl)
    rw [List.append_nil, Clauses.bindingsFrom_self] at hinner
    rw [List.append_assoc, List.append_assoc, items_led led place parent path stop hself rfl,
      List.singleton_append, items_group place parent stop _ hinner,
      separated_of_continued continued .group place parent stop hv hends]
    rfl
  | _, _, .cons (.plain led marked) continued, place, parent, path, stop, left, hv, hends => by
    obtain ⟨hplain, hv⟩ := hv
    obtain ⟨binding, hbinding, hbindings⟩ := hplain.exists_plain
    rw [List.append_assoc, List.append_assoc,
      items_led led place parent path stop hplain.1.1 (segmentFollows_segment _ marked),
      items_segment place parent _ stop _ marked,
      chain_of_continued continued place parent _ stop hbinding hv hends,
      Clauses.bindingsFrom, hbindings]
    rfl
  | _, _, .cons (.renamed name led marked as) continued,
      place, parent, path, stop, left, hv, hends => by
    obtain ⟨hself, hv⟩ := hv
    rw [List.append_assoc, List.append_assoc, List.append_assoc,
      items_led led place parent path stop hself.1 (segmentFollows_segment _ marked),
      items_segment place parent _ stop _ marked, List.cons_append, List.singleton_append,
      chain_alias place parent stop name _ as hself.enclosed,
      separated_of_continued continued .renaming place parent stop hv hends,
      Clauses.bindingsFrom, Clause.bindings, Clause.path_eq path]
    rfl

/-- What follows an alias or a group in the grammar is read. -/
theorem separated_of_continued :
    ∀ {clauses : List Clause} {used : Forest}, Clauses.Continued clauses used →
      ∀ (ended : Ended) (place : Place) (parent : Path) (stop : Span) {left : Forest},
        Clauses.Valid parent clauses → Ends place left →
          separated ended place parent stop (used ++ left) =
            .ok (Clauses.bindings parent clauses, left)
  | _, _, .stop, ended, place, parent, stop, left, _, hends => separated_ends ended parent stop hends
  | _, _, .comma hc spelled, ended, place, parent, stop, left, hv, hends => by
    rw [List.cons_append, separated_comma ended place parent stop _ hc,
      items_of_spelled spelled place parent parent stop
        ((Clauses.validFrom_self _ _).mpr hv) hends, Clauses.bindingsFrom_self]

/-- What follows a plain chain in the grammar is read. -/
theorem chain_of_continued :
    ∀ {clauses : List Clause} {used : Forest}, Clauses.Continued clauses used →
      ∀ (place : Place) (parent front : Path) {last : Segment} {binding : Binding} (stop : Span)
        {left : Forest}, Binding.plain front last = .ok binding → Clauses.Valid parent clauses →
          Ends place left → chain place parent front last stop (used ++ left) =
            .ok (binding :: Clauses.bindings parent clauses, left)
  | _, _, .stop, place, parent, front, last, binding, stop, left, hp, _, hends =>
    chain_ends parent stop hends hp
  | _, _, .comma hc spelled, place, parent, front, last, binding, stop, left, hp, hv, hends => by
    rw [List.cons_append, chain_comma place parent stop _ hc hp,
      items_of_spelled spelled place parent parent stop
        ((Clauses.validFrom_self _ _).mpr hv) hends, Clauses.bindingsFrom_self]
    rfl

end

/-! ### Whole declarations -/

theorem finish_eq_ok {stop : Span} {bindings all : List Binding} {trees left : Forest}
    (h : finish stop bindings trees = .ok (all, left)) :
    ∃ semicolon, semicolon.isPunct ";" = true ∧ trees = semicolon :: left ∧ bindings = all := by
  unfold finish at h
  split at h
  · cases h
  · split at h
    · next hs =>
      cases h
      exact ⟨_, hs, rfl, rfl⟩
    · cases h

theorem Clause.Spelled.segmentFollows {clause : Clause} {trees : Forest} (rest : Forest)
    (h : clause.Spelled trees) : segmentFollows (trees ++ rest) = true := by
  cases h with
  | group span led spelled =>
    rw [List.append_assoc]
    exact led.segmentFollows rfl
  | plain led marked =>
    rw [List.append_assoc]
    exact led.segmentFollows (segmentFollows_segment rest marked)
  | renamed name led marked as =>
    rw [List.append_assoc, List.append_assoc]
    exact led.segmentFollows (segmentFollows_segment _ marked)

theorem startsWithSeparator_eq_true_iff {trees : Forest} :
    trees.startsWithSeparator = true ↔
      ∃ first second rest, first.Separate second ∧ trees = first :: second :: rest := by
  constructor
  · intro h
    unfold Forest.startsWithSeparator at h
    split at h
    · next first second rest =>
      simp only [Bool.and_eq_true] at h
      exact ⟨first, second, rest, h, rfl⟩
    · cases h
  · rintro ⟨first, second, rest, h, rfl⟩
    simp [Forest.startsWithSeparator, h.1, h.2]

/-- Nothing that starts items, and no `;`, is a separator. -/
theorem dropSeparator_of_spelled {clauses : List Clause} {used : Forest} {semicolon : Tree}
    (rest : Forest) (h : Clauses.Spelled clauses used) (hs : semicolon.isPunct ";" = true) :
    dropSeparator (used ++ semicolon :: rest) = used ++ semicolon :: rest := by
  refine if_neg fun hsep => ?_
  obtain ⟨first, second, after, hseparate, heq⟩ := startsWithSeparator_eq_true_iff.mp hsep
  have hcolon := isPunct_of_isPunctSpaced hseparate.1
  cases h with
  | nil =>
    obtain rfl : semicolon = first := (List.cons.inj heq).1
    rw [isPunct_eq_false_of_isPunct ":" hs (by decide)] at hcolon
    cases hcolon
  | @cons clause clauses trees others spelled continued =>
    have hfollows := spelled.segmentFollows (others ++ semicolon :: rest)
    rw [← List.append_assoc, heq, segmentFollows_of_isPunct _ hcolon (by decide) (by decide)]
      at hfollows
    cases hfollows

theorem dropSeparator_separate {first second : Tree} (rest : Forest)
    (h : first.Separate second) : dropSeparator (first :: second :: rest) = rest :=
  if_pos (startsWithSeparator_eq_true_iff.mpr ⟨first, second, rest, h, rfl⟩)

/-- A declaration of the grammar is read, whatever follows it. -/
theorem item_of_spelled {clauses : List Clause} {used : Forest} (stop : Span) (left : Forest)
    (h : Spelled clauses used) (hv : Clauses.Valid [] clauses) :
    item stop (used ++ left) = .ok (Clauses.bindings [] clauses, left) := by
  -- Behind the `use` and the separator both forms are items, a `;` and what is left.
  have hread : ∀ {trees : Forest} {semicolon : Tree}, Clauses.Spelled clauses trees →
      semicolon.isPunct ";" = true → items .top [] [] stop (trees ++ semicolon :: left) =
        .ok (Clauses.bindings [] clauses, semicolon :: left) := by
    intro trees semicolon hspelled hs
    rw [items_of_spelled hspelled .top [] [] stop ((Clauses.validFrom_self [] clauses).mpr hv)
      (.inr ⟨rfl, semicolon, left, rfl, hs⟩), Clauses.bindingsFrom_self]
  cases h with
  | relative use spelled ended =>
    simp only [List.cons_append, List.append_assoc, List.nil_append, item, use, if_true,
      dropSeparator_of_spelled left spelled ended, hread spelled ended, finish, ended]
  | rooted use separate spelled ended =>
    simp only [List.cons_append, List.append_assoc, List.nil_append, item, use, if_true,
      dropSeparator_separate _ separate, hread spelled ended, finish, ended]

/-- A declaration that is read is in the grammar. -/
theorem spelled_of_item {stop : Span} {trees left : Forest} {bindings : List Binding}
    (h : item stop trees = .ok (bindings, left)) :
    ∃ clauses used, trees = used ++ left ∧ Spelled clauses used ∧ Clauses.Valid [] clauses ∧
      bindings = Clauses.bindings [] clauses := by
  unfold item at h
  split at h
  · cases h
  · next word rest =>
    split at h
    · next huse =>
      split at h
      · cases h
      · next inside remaining hitems =>
        obtain ⟨clauses, used, hrest, hends, hspelled, hvalid, rfl⟩ :=
          itemsRead_of_items .top [] [] stop _ hitems
        obtain ⟨semicolon, hs, rfl, rfl⟩ := finish_eq_ok h
        have hvalid := (Clauses.validFrom_self [] clauses).mp hvalid
        have hbindings := Clauses.bindingsFrom_self [] clauses
        by_cases hsep : Forest.startsWithSeparator rest = true
        · obtain ⟨first, second, after, hseparate, rfl⟩ := startsWithSeparator_eq_true_iff.mp hsep
          rw [dropSeparator_separate after hseparate] at hrest
          refine ⟨clauses, word :: first :: second :: (used ++ [semicolon]), ?_,
            .rooted huse hseparate hspelled hs, hvalid, hbindings⟩
          simp [hrest]
        · rw [dropSeparator, if_neg hsep] at hrest
          refine ⟨clauses, word :: (used ++ [semicolon]), ?_, .relative huse hspelled hs, hvalid,
            hbindings⟩
          simp [hrest]
    · cases h

/-! ### Declarations at the front of a level -/

/-- What introduces a declaration in a style. -/
inductive Introducer : Style → Forest → Prop
  | bare : Introducer .bare []
  | pound {mark : Tree} (pound : mark.isPunct "#" = true) : Introducer .pound [mark]

theorem Introducer.introduced? {style : Style} {introducer : Forest} {word : Tree}
    (h : Introducer style introducer) (use : word.isIdent "use" = true) (rest : Forest) :
    Declaration.introduced? style (introducer ++ word :: rest) = some (word :: rest) := by
  cases h with
  | bare => exact if_pos use
  | pound pound =>
    refine if_pos ?_
    rw [pound, use]
    rfl

theorem leading_of_item {style : Style} {stop : Span} {trees declared left : Forest}
    {bindings : List Binding} (hdeclared : introduced? style trees = some declared)
    (hitem : item stop declared = .ok (bindings, left)) :
    leading style stop trees = prepend bindings (leading style stop left) := by
  rw [leading]
  split
  · next hnone =>
    rw [hdeclared] at hnone
    cases hnone
  · next hsome =>
    cases hdeclared.symm.trans hsome
    split
    · next herror =>
      rw [hitem] at herror
      cases herror
    · next hok =>
      cases hitem.symm.trans hok
      rfl

/-- A declaration of the grammar at the front of a level is read, and reading goes on
behind it. -/
theorem leading_of_spelled {style : Style} {introducer used : Forest} {clauses : List Clause}
    (stop : Span) (left : Forest) (hstyle : Introducer style introducer)
    (h : Spelled clauses used) (hv : Clauses.Valid [] clauses) :
    leading style stop (introducer ++ (used ++ left)) =
      prepend (Clauses.bindings [] clauses) (leading style stop left) := by
  refine leading_of_item ?_ (item_of_spelled stop left h hv)
  cases h with
  | relative use spelled ended => exact hstyle.introduced? use _
  | rooted use separate spelled ended => exact hstyle.introduced? use _

end Declaration

namespace Cursor

theorem left_leave {cursor : Cursor} {used left : Forest} (h : cursor.left = used ++ left) :
    (cursor.leave left).left = left := by
  have hlevel : cursor.level = (cursor.level.take cursor.position ++ used) ++ left := by
    rw [List.append_assoc, ← h]
    exact (List.take_append_drop cursor.position cursor.level).symm
  change cursor.level.drop (cursor.level.length - left.length) = left
  rw [hlevel, List.length_append, Nat.add_sub_cancel]
  exact List.drop_left

/-- A declaration is read through a cursor exactly when the trees that are left start
with a declaration of the grammar that keeps its rules; the bindings are those the
declaration lists, and the cursor is left behind its `;`. -/
theorem read_item_eq_ok_iff (cursor : Cursor) (bindings : List Binding) (left : Forest) :
    ((cursor.read Declaration.item).1 = .ok bindings ∧
        (cursor.read Declaration.item).2.left = left) ↔
      ∃ clauses used, cursor.left = used ++ left ∧ Declaration.Spelled clauses used ∧
        Declaration.Clauses.Valid [] clauses ∧
          bindings = Declaration.Clauses.bindings [] clauses := by
  constructor
  · rintro ⟨hbindings, hleft⟩
    cases hread : Declaration.item cursor.stop cursor.left with
    | error failure =>
      rw [Cursor.read, hread] at hbindings
      cases hbindings
    | ok value =>
      rw [Cursor.read, hread] at hbindings hleft
      cases hbindings
      obtain ⟨clauses, used, htrees, hspelled, hvalid, hbindings⟩ :=
        Declaration.spelled_of_item hread
      rw [left_leave htrees] at hleft
      rw [hleft] at htrees
      exact ⟨clauses, used, htrees, hspelled, hvalid, hbindings⟩
  · rintro ⟨clauses, used, htrees, hspelled, hvalid, rfl⟩
    have hread := Declaration.item_of_spelled cursor.stop left hspelled hvalid
    rw [← htrees] at hread
    rw [Cursor.read, hread]
    exact ⟨rfl, left_leave htrees⟩

end Cursor

end Qualify
