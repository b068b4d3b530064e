import Qualify.Proofs.Declaration.Frame

/-!
# Declarations read with a stack of frames

The loop over frames comes to what the recursion comes to (`Frame.run_items`), so it
refuses exactly the levels that the recursion refuses and never meets a fault: braces
are opened on a path that was built, a chain is bound after a segment was put on it, and
trees are only taken off a level that has some left. The same holds of whole
declarations (`Cursor.item_leave`) and of all declarations at the head of a body
(`Cursor.leading_leave`).

## Main definitions

- `Frame.follow` — what the loop makes of a level whose reading is known
- `Cursor.item`, `Cursor.leading` — declarations read with the loop
-/

namespace Qualify

namespace Declaration

namespace Frame

/-- What the loop makes of a round. -/
def proceed (move : Checked Move) (enclosing : List Frame) (read : List Binding) :
    Checked (List Binding × Cursor) :=
  match move, enclosing with
  | .error halt, _ => .error halt
  | .ok (.leave cursor bindings), [] => .ok (read ++ bindings, cursor)
  | .ok (.leave _ bindings), outer :: enclosing => run outer enclosing (read ++ bindings)
  | .ok (.stay next bindings), _ => run next enclosing (read ++ bindings)
  | .ok (.enter outer inner), _ => run inner (outer :: enclosing) read

theorem run_eq_proceed (frame : Frame) (enclosing : List Frame) (read : List Binding) :
    run frame enclosing read = proceed frame.step enclosing read := by
  rw [run]
  split
  · next hstep => rw [hstep, proceed]
  · next hstep =>
    rw [hstep]
    cases enclosing <;> rfl
  · next hstep => rw [hstep, proceed]
  · next hstep => rw [hstep, proceed]

/-- What the loop makes of a level whose reading is known. -/
def follow (cursor : Cursor) (reading : Reading) (enclosing : List Frame) (read : List Binding) :
    Checked (List Binding × Cursor) :=
  match reading with
  | .error failure => .error (.refusal failure.error)
  | .ok (bindings, left) => proceed (.ok (.leave (cursor.leave left) bindings)) enclosing read

theorem follow_prepend (cursor : Cursor) (bindings : List Binding) (reading : Reading)
    (enclosing : List Frame) (read : List Binding) :
    follow cursor (prepend bindings reading) enclosing read =
      follow cursor reading enclosing (read ++ bindings) := by
  cases reading with
  | error failure => rfl
  | ok value => cases enclosing <;> simp only [prepend, follow, proceed, List.append_assoc]

section

variable (place : Place) (parent path : Path) {cursor : Cursor} {tree : Tree} {rest : Forest}

theorem atEnd_leave_nil (afterGroup : Bool) :
    atEnd ⟨place, parent, path, cursor.leave [], afterGroup⟩ = .ok true := by
  have hleft := cursor.left_leave_of_suffix (List.nil_suffix (l := cursor.level))
  simp only [atEnd, Cursor.nextIs, Cursor.next?, Cursor.isEmpty, hleft]
  rfl

theorem atEnd_leave_cons (afterGroup : Bool) (h : tree :: rest <:+ cursor.level) :
    atEnd ⟨place, parent, path, cursor.leave (tree :: rest), afterGroup⟩ =
      if tree.isPunct ";" then
        match place with
        | .top => .ok true
        | .nested => refuse .semicolonInBraces tree.span
      else .ok false := by
  simp only [atEnd, Cursor.nextIs_leave _ h, Cursor.isEmpty, Cursor.left_leave_of_suffix h,
    Cursor.span_leave h]
  rfl

theorem separator_leave (afterGroup : Bool) (ended : Ended) (h : tree :: rest <:+ cursor.level) :
    separator ⟨place, parent, path, cursor.leave (tree :: rest), afterGroup⟩ ended =
      if tree.isPunct "," then .ok (cursor.leave rest)
      else if ended = .group && tree.isIdent "as" then refuse .renamedGroup tree.span
      else if ended = .renaming && Forest.startsWithSeparator (tree :: rest) then
        refuse .aliasContinued tree.span
      else refuse (.missingSeparator ended place (.ofForest (tree :: rest))) tree.span := by
  rw [separator, Cursor.accept?_comma_leave h]
  by_cases hcomma : tree.isPunct "," = true
  · rw [if_pos hcomma, if_pos hcomma]
    rfl
  · rw [if_neg hcomma, if_neg hcomma]
    simp only [Cursor.nextIs_leave _ h, Cursor.left_leave_of_suffix h, Cursor.span_leave h,
      Cursor.startsWith_separator]
    rfl

/-! ### Rounds -/

theorem step_of_afterGroup (cursor : Cursor) :
    step ⟨place, parent, path, cursor, true⟩ =
      separate ⟨place, parent, path, cursor, true⟩ .group [] := rfl

theorem step_leave_nil :
    step ⟨place, parent, path, cursor.leave [], false⟩ = .ok (.leave (cursor.leave []) []) := by
  rw [step, if_neg Bool.false_ne_true, atEnd_leave_nil]
  rfl

theorem step_leave_semicolon (h : tree :: rest <:+ cursor.level)
    (hsemicolon : tree.isPunct ";" = true) :
    step ⟨place, parent, path, cursor.leave (tree :: rest), false⟩ =
      match place with
      | .top => .ok (.leave (cursor.leave (tree :: rest)) [])
      | .nested => refuse .semicolonInBraces tree.span := by
  rw [step, if_neg Bool.false_ne_true, atEnd_leave_cons _ _ _ _ h, if_pos hsemicolon]
  cases place <;> rfl

theorem step_leave_group {inner : Forest} {span : Span}
    (h : .group .brace inner span :: rest <:+ cursor.level) :
    step ⟨place, parent, path, cursor.leave (.group .brace inner span :: rest), false⟩ =
      .ok (.enter ⟨place, parent, path, cursor.leave rest, true⟩
        ⟨.nested, path, path, { level := inner, stop := span }, false⟩) := by
  rw [step, if_neg Bool.false_ne_true, atEnd_leave_cons _ _ _ _ h, if_neg nofun, Checked.ok_bind,
    if_neg Bool.false_ne_true, Cursor.next?_leave h, Cursor.advance_leave h]
  rfl

theorem step_leave_segment (h : tree :: rest <:+ cursor.level)
    (hsemicolon : ¬ tree.isPunct ";" = true) (hbraces : ¬ tree.isBraces = true) :
    step ⟨place, parent, path, cursor.leave (tree :: rest), false⟩ =
      segment (cursor.leave (tree :: rest)) >>= fun (last, cursor) =>
        extend ⟨place, parent, path ++ [last], cursor, false⟩ := by
  rw [step, if_neg Bool.false_ne_true, atEnd_leave_cons _ _ _ _ h, if_neg hsemicolon,
    Checked.ok_bind, if_neg Bool.false_ne_true, Cursor.next?_leave h]
  split
  · next heq =>
    cases heq
    exact absurd rfl hbraces
  · rfl

/-! ### Segments -/

theorem segment_leave_ident {ident : Ident} (h : .ident ident :: rest <:+ cursor.level) :
    segment (cursor.leave (.ident ident :: rest)) = .ok (.name ident, cursor.leave rest) := by
  rw [segment, Cursor.next?_leave h, Cursor.advance_leave h]
  rfl

theorem segment_leave_glob (h : tree :: rest <:+ cursor.level) (hglob : tree.isPunct "*" = true) :
    segment (cursor.leave (tree :: rest)) = refuse .glob tree.span := by
  simp only [segment, Cursor.next?_leave h, if_pos hglob]

theorem segment_leave_pound_end {marker : Punct} (hmarker : marker.text = "#")
    (h : [.punct marker] <:+ cursor.level) :
    segment (cursor.leave [.punct marker]) = refuse .missingPlaceholder cursor.stop := by
  have hend : [] <:+ cursor.level := List.nil_suffix
  simp only [segment, Cursor.next?_leave h, Cursor.advance_leave h, Tree.isPunct, hmarker,
    Checked.ofFault_ok, Checked.ok_bind, Cursor.isEmpty, Cursor.left_leave_of_suffix hend,
    Cursor.span_leave hend]
  rfl

theorem segment_leave_pound {marker : Punct} {value : Tree} (hmarker : marker.text = "#")
    (h : .punct marker :: value :: rest <:+ cursor.level) :
    segment (cursor.leave (.punct marker :: value :: rest)) =
      .ok (.placeholder marker value, cursor.leave rest) := by
  have hvalue := (List.suffix_cons (.punct marker) (value :: rest)).trans h
  simp only [segment, Cursor.next?_leave h, Cursor.advance_leave h, Tree.isPunct, hmarker,
    Checked.ofFault_ok, Checked.ok_bind, Cursor.isEmpty, Cursor.left_leave_of_suffix hvalue,
    Cursor.advance_leave hvalue]
  rfl

theorem segment_leave_other (h : tree :: rest <:+ cursor.level)
    (hglob : ¬ tree.isPunct "*" = true) (hpound : ¬ tree.isPunct "#" = true)
    (hident : tree.ident? = none) :
    segment (cursor.leave (tree :: rest)) =
      refuse (.missingSegment (.ofForest (tree :: rest))) tree.span := by
  simp only [segment, Cursor.next?_leave h, Cursor.left_leave_of_suffix h, Cursor.span_leave h,
    if_neg hglob]
  split
  · cases hident
  · split
    · next hmarker => exact absurd (decide_eq_true hmarker) hpound
    · rfl
  · rfl

/-! ### Behind a segment -/

theorem extend_leave_nil :
    extend ⟨place, parent, path, cursor.leave [], false⟩ =
      path.bound >>= fun binding =>
        .ok (.stay ⟨place, parent, parent, cursor.leave [], false⟩ [binding]) := by
  rw [extend, Cursor.accept?_leave _ (List.nil_suffix (l := cursor.level))]
  simp only [Forest.startsWith, Bool.false_eq_true, if_false, atEnd_leave_nil, Checked.ok_bind]
  rfl

theorem extend_leave_comma (h : tree :: rest <:+ cursor.level) (hcomma : tree.isPunct "," = true) :
    extend ⟨place, parent, path, cursor.leave (tree :: rest), false⟩ =
      path.bound >>= fun binding =>
        .ok (.stay ⟨place, parent, parent, cursor.leave rest, false⟩ [binding]) := by
  rw [extend, Cursor.accept?_comma_leave h, if_pos hcomma]
  rfl

theorem extend_leave_semicolon (h : tree :: rest <:+ cursor.level)
    (hsemicolon : tree.isPunct ";" = true) :
    extend ⟨place, parent, path, cursor.leave (tree :: rest), false⟩ =
      match place with
      | .top => path.bound >>= fun binding =>
        .ok (.stay ⟨place, parent, parent, cursor.leave (tree :: rest), false⟩ [binding])
      | .nested => refuse .semicolonInBraces tree.span := by
  have hcomma := isPunct_eq_false_of_isPunct "," hsemicolon (by decide)
  rw [extend, Cursor.accept?_comma_leave h, hcomma, if_neg Bool.false_ne_true]
  simp only [atEnd_leave_cons _ _ _ _ h, if_pos hsemicolon]
  cases place <;> rfl

theorem extend_leave_as (h : tree :: rest <:+ cursor.level) (has : tree.isIdent "as" = true) :
    extend ⟨place, parent, path, cursor.leave (tree :: rest), false⟩ =
      renamed ⟨place, parent, path, cursor.leave (tree :: rest), false⟩ >>= fun (binding, cursor) =>
        separate ⟨place, parent, path, cursor, false⟩ .renaming [binding] := by
  have hcomma := isPunct_eq_false_of_isIdent "," has
  have hsemicolon := isPunct_eq_false_of_isIdent ";" has
  rw [extend, Cursor.accept?_comma_leave h, hcomma, if_neg Bool.false_ne_true]
  simp only [atEnd_leave_cons _ _ _ _ h, hsemicolon, Bool.false_eq_true, if_false, Checked.ok_bind,
    Cursor.nextIs_leave _ h, has, if_true]

theorem renamed_leave (front : Path) (last : Segment) (h : tree :: rest <:+ cursor.level) :
    renamed ⟨place, parent, front ++ [last], cursor.leave (tree :: rest), false⟩ =
      Checked.ofRefusal (Binding.target front last) >>= fun path =>
        match rest with
        | [] => refuse (.missingAlias .nothing) tree.span
        | value :: after =>
          match value.ident? with
          | none => refuse (.missingAlias (.ofForest (value :: after))) value.span
          | some name => .ok (⟨name, path⟩, cursor.leave after) := by
  have hrest := (List.suffix_cons tree rest).trans h
  simp only [renamed, Cursor.advance_leave h, Checked.ofFault_ok, Checked.ok_bind,
    Path.target_concat, Cursor.next?, Cursor.left_leave_of_suffix hrest, Cursor.span_leave hrest]
  cases rest with
  | nil => rfl
  | cons value after =>
    simp only [Cursor.advance_leave hrest, Checked.ofFault_ok, Checked.ok_bind]
    rfl

theorem extend_leave_separator (front : Path) (last : Segment) {first second : Tree}
    (h : first :: second :: rest <:+ cursor.level)
    (hseparator : (first.isPunctSpaced ":" .joint && second.isPunct ":") = true) :
    extend ⟨place, parent, front ++ [last], cursor.leave (first :: second :: rest), false⟩ =
      if last.isSelf then refuse .selfContinued first.span
      else if segmentFollows rest then
        .ok (.stay ⟨place, parent, front ++ [last], cursor.leave rest, false⟩ [])
      else refuse (.danglingSeparator (.ofForest rest)) (spanAt cursor.stop rest) := by
  have hrest := (List.suffix_cons second rest).trans ((List.suffix_cons first _).trans h)
  have hcolon := isPunct_of_isPunctSpaced (Bool.and_eq_true_iff.mp hseparator).1
  have hcomma := isPunct_eq_false_of_isPunct "," hcolon (by decide)
  have hsemicolon := isPunct_eq_false_of_isPunct ";" hcolon (by decide)
  have has := isIdent_eq_false_of_isPunct "as" hcolon
  have hskip : (cursor.leave (first :: second :: rest)).skip [':', ':'] = cursor.leave rest := by
    rw [Cursor.skip_separator_leave h, dropSeparator, Forest.startsWithSeparator,
      if_pos hseparator]
    rfl
  rw [extend, Cursor.accept?_comma_leave h, hcomma, if_neg Bool.false_ne_true]
  simp only [atEnd_leave_cons _ _ _ _ h, hsemicolon, Bool.false_eq_true, if_false, Checked.ok_bind,
    Cursor.nextIs_leave _ h, has, Cursor.left_leave_of_suffix h, Cursor.startsWith_separator,
    Forest.startsWithSeparator, hseparator, if_true, Path.last_concat, Checked.ofFault_ok, hskip,
    Cursor.left_leave_of_suffix hrest, Cursor.span_leave h, Cursor.span_leave hrest, spanAt]
  rfl

theorem extend_leave_other (h : tree :: rest <:+ cursor.level) (hcomma : ¬ tree.isPunct "," = true)
    (hsemicolon : ¬ tree.isPunct ";" = true) (has : ¬ tree.isIdent "as" = true)
    (hseparator : ¬ Forest.startsWithSeparator (tree :: rest) = true) :
    extend ⟨place, parent, path, cursor.leave (tree :: rest), false⟩ =
      refuse (.unendedChain place (.ofForest (tree :: rest))) tree.span := by
  rw [extend, Cursor.accept?_comma_leave h, if_neg hcomma]
  simp only [atEnd_leave_cons _ _ _ _ h, if_neg hsemicolon, Bool.false_eq_true, if_false,
    Checked.ok_bind, Cursor.nextIs_leave _ h, if_neg has, Cursor.left_leave_of_suffix h,
    Cursor.startsWith_separator, if_neg hseparator, Cursor.span_leave h, spanAt]

/-! ### The loop follows the recursion -/

theorem run_leave_nil (enclosing : List Frame) (read : List Binding) :
    run ⟨place, parent, path, cursor.leave [], false⟩ enclosing read =
      follow cursor (.ok ([], [])) enclosing read := by
  rw [run_eq_proceed, step_leave_nil]
  rfl

theorem run_leave_semicolon (h : tree :: rest <:+ cursor.level)
    (hsemicolon : tree.isPunct ";" = true) (enclosing : List Frame) (read : List Binding) :
    run ⟨place, parent, path, cursor.leave (tree :: rest), false⟩ enclosing read =
      follow cursor (semicolon place [] tree rest) enclosing read := by
  rw [run_eq_proceed, step_leave_semicolon _ _ _ h hsemicolon]
  cases place <;> rfl

end

/-- A chain that ends is bound, and the loop goes on with the bindings behind it. -/
theorem proceed_bound {cursor : Cursor} {next : Frame} {reading : Reading}
    {enclosing : List Frame} (front : Path) (last : Segment) (left : Forest) (read : List Binding)
    (hnext : ∀ read, run next enclosing read = follow cursor reading enclosing read) :
    proceed (Path.bound (front ++ [last]) >>= fun binding => .ok (.stay next [binding]))
        enclosing read =
      follow cursor
        (match Binding.plain front last with
        | .error error => .error ⟨error, left⟩
        | .ok binding => prepend [binding] reading) enclosing read := by
  rw [Path.bound_concat]
  cases Binding.plain front last with
  | error error => rfl
  | ok binding =>
    rw [Checked.ofRefusal_ok, Checked.ok_bind, proceed, hnext, follow_prepend]

mutual

/-- A level of items comes to what the recursion comes to, whatever is on the stack. -/
theorem run_items (cursor : Cursor) (trees : Forest) (h : trees <:+ cursor.level) (place : Place)
    (parent path : Path) (enclosing : List Frame) (read : List Binding) :
    run ⟨place, parent, path, cursor.leave trees, false⟩ enclosing read =
      follow cursor (items place parent path cursor.stop trees) enclosing read := by
  cases trees with
  | nil =>
    rw [items]
    exact run_leave_nil place parent path enclosing read
  | cons tree rest =>
    have hrest := (List.suffix_cons tree rest).trans h
    unfold items
    split
    · next hs => exact run_leave_semicolon place parent path h hs enclosing read
    split
    · next hb =>
      obtain ⟨inner, span, rfl⟩ := exists_group_of_isBraces hb
      -- The frame behind the braces waits on the stack while the level inside is read.
      have hinner := run_items { level := inner, stop := span } inner List.suffix_rfl .nested path
        path (⟨place, parent, path, cursor.leave rest, true⟩ :: enclosing) read
      rw [Cursor.leave_start] at hinner
      rw [run_eq_proceed, step_leave_group _ _ _ h, proceed, hinner, members]
      cases items .nested path path span inner with
      | error failure => rfl
      | ok value =>
        rw [follow, proceed, run_eq_proceed, step_of_afterGroup,
          proceed_separate cursor rest hrest, follow_prepend, follow_prepend, List.append_nil]
    next hs hb =>
    rw [run_eq_proceed, step_leave_segment _ _ _ h hs hb]
    split
    · next hglob =>
      rw [segment_leave_glob h hglob]
      rfl
    next hglob =>
    split
    · next ident =>
      rw [segment_leave_ident h, Checked.ok_bind]
      exact proceed_extend cursor rest hrest place parent path (.name ident) enclosing read
    · next marker =>
      split
      · next hmarker =>
        cases rest with
        | nil =>
          rw [segment_leave_pound_end hmarker h]
          rfl
        | cons value after =>
          rw [segment_leave_pound hmarker h, Checked.ok_bind]
          exact proceed_extend cursor after ((List.suffix_cons value after).trans hrest) place
            parent path (.placeholder marker value) enclosing read
      · next hmarker =>
        rw [segment_leave_other h hglob (by simpa [Tree.isPunct] using hmarker) rfl]
        rfl
    · next hident hpunct =>
      have hnone : tree.ident? = none := by
        cases hsome : tree.ident? with
        | none => rfl
        | some ident => exact absurd (exists_ident_of_ident? hsome) (hident ident)
      have hpound : ¬ tree.isPunct "#" = true := by
        intro hpound
        obtain ⟨marker, hmarker⟩ := exists_punct_of_isPunct hpound
        exact hpunct marker hmarker
      rw [segment_leave_other h hglob hpound hnone]
      rfl
termination_by sizeOf trees

/-- So does what follows a segment. -/
theorem proceed_extend (cursor : Cursor) (trees : Forest) (h : trees <:+ cursor.level)
    (place : Place) (parent front : Path) (last : Segment) (enclosing : List Frame)
    (read : List Binding) :
    proceed (extend ⟨place, parent, front ++ [last], cursor.leave trees, false⟩) enclosing read =
      follow cursor (chain place parent front last cursor.stop trees) enclosing read := by
  cases trees with
  | nil =>
    rw [extend_leave_nil, chain]
    exact proceed_bound front last [] read (run_leave_nil place parent parent enclosing)
  | cons tree rest =>
    have hrest := (List.suffix_cons tree rest).trans h
    unfold chain
    split
    · next hcomma =>
      rw [extend_leave_comma _ _ _ h hcomma]
      exact proceed_bound front last rest read
        (run_items cursor rest hrest place parent parent enclosing)
    split
    · next hsemicolon =>
      rw [extend_leave_semicolon _ _ _ h hsemicolon]
      cases place with
      | nested => rfl
      | top =>
        refine (proceed_bound front last (tree :: rest) read
          (run_leave_semicolon .top parent parent h hsemicolon enclosing)).trans ?_
        cases Binding.plain front last <;> rfl
    next hcomma hsemicolon =>
    split
    · next has =>
      rw [extend_leave_as _ _ _ h has, renamed_leave _ _ _ _ h]
      cases Binding.target front last with
      | error error => rfl
      | ok path =>
        rw [Checked.ofRefusal_ok, Checked.ok_bind]
        cases rest with
        | nil => rfl
        | cons value after =>
          cases hname : value.ident? with
          | none => simp only [hname]; rfl
          | some name =>
            simp only [hname]
            exact proceed_separate cursor after ((List.suffix_cons value after).trans hrest)
              .renaming place parent (front ++ [last]) false [⟨name, path⟩] enclosing read
    next has =>
    split
    · next second after =>
      split
      · next hseparator =>
        rw [extend_leave_separator _ _ _ _ h hseparator]
        split
        · rfl
        split
        · have hafter := (List.suffix_cons second after).trans hrest
          rw [proceed, run_items cursor after hafter, List.append_nil]
        · rfl
      · next hseparator =>
        rw [extend_leave_other _ _ _ h hcomma hsemicolon has hseparator]
        rfl
    · rw [extend_leave_other _ _ _ h hcomma hsemicolon has Bool.false_ne_true]
      rfl
termination_by sizeOf trees

/-- So does what follows an alias or a group. -/
theorem proceed_separate (cursor : Cursor) (trees : Forest) (h : trees <:+ cursor.level)
    (ended : Ended) (place : Place) (parent path : Path) (afterGroup : Bool)
    (bindings : List Binding) (enclosing : List Frame) (read : List Binding) :
    proceed (separate ⟨place, parent, path, cursor.leave trees, afterGroup⟩ ended bindings)
        enclosing read =
      follow cursor (prepend bindings (separated ended place parent cursor.stop trees))
        enclosing read := by
  cases trees with
  | nil =>
    rw [separate, atEnd_leave_nil, separated, prepend, List.append_nil]
    rfl
  | cons tree rest =>
    rw [separate, atEnd_leave_cons _ _ _ _ h, separated]
    by_cases hs : tree.isPunct ";" = true
    · rw [if_pos hs, if_pos hs]
      cases place with
      | top =>
        rw [semicolon, prepend, List.append_nil]
        rfl
      | nested => rfl
    · rw [if_neg hs, if_neg hs, Checked.ok_bind, if_neg Bool.false_ne_true,
        separator_leave _ _ _ _ _ h]
      split
      · rw [follow_prepend]
        exact run_items cursor rest ((List.suffix_cons tree rest).trans h) place parent parent
          enclosing (read ++ bindings)
      split
      · rfl
      split <;> rfl
termination_by sizeOf trees

end

end Frame

end Declaration

/-! ### Declarations -/

namespace Cursor

open Declaration

/-- What a cursor comes to when the reading of the trees left is known. -/
def settle (cursor : Cursor) : Reading → Checked (List Binding × Cursor)
  | .error failure => .error (.refusal failure.error)
  | .ok (bindings, left) => .ok (bindings, cursor.leave left)

/-- Read the `;` that ends a declaration. -/
def finish (cursor : Cursor) (bindings : List Binding) : Checked (List Binding × Cursor) :=
  match cursor.accept? [';'] with
  | some cursor => return (bindings, cursor)
  | none => refuse (.missingSemicolon (.ofForest cursor.left)) cursor.span

/-- Read one declaration. -/
def item (cursor : Cursor) : Checked (List Binding × Cursor) := do
  if cursor.nextIs (·.isIdent "use") then
    let (_, cursor) ← Checked.ofFault cursor.advance
    let (bindings, cursor) ← Frame.run ⟨.top, [], [], cursor.skip [':', ':'], false⟩ [] []
    cursor.finish bindings
  else refuse (.missingUse (.ofForest cursor.left)) cursor.span

theorem suffix_of_items {place : Place} {parent path : Path} {stop : Span} {trees left : Forest}
    {bindings : List Binding} (h : items place parent path stop trees = .ok (bindings, left)) :
    left <:+ trees := by
  obtain ⟨clauses, used, rfl, -⟩ := itemsRead_of_items place parent path stop trees h
  exact List.suffix_append used left

theorem suffix_dropSeparator (trees : Forest) : dropSeparator trees <:+ trees := by
  unfold dropSeparator
  split
  · exact List.drop_suffix 2 trees
  · exact List.suffix_rfl

theorem finish_leave {cursor : Cursor} {trees : Forest} (h : trees <:+ cursor.level)
    (bindings : List Binding) :
    (cursor.leave trees).finish bindings =
      cursor.settle (Declaration.finish cursor.stop bindings trees) := by
  rw [finish, accept?_leave _ h, left_leave_of_suffix h, span_leave h]
  cases trees with
  | nil => rfl
  | cons tree rest =>
    have hstarts : Forest.startsWith [';'] (tree :: rest) = tree.isPunct ";" := rfl
    rw [Declaration.finish, hstarts]
    by_cases hsemicolon : tree.isPunct ";" = true
    · rw [if_pos hsemicolon, if_pos hsemicolon]
      rfl
    · rw [if_neg hsemicolon, if_neg hsemicolon]
      rfl

theorem item_leave {cursor : Cursor} {trees : Forest} (h : trees <:+ cursor.level) :
    (cursor.leave trees).item = cursor.settle (Declaration.item cursor.stop trees) := by
  cases trees with
  | nil =>
    simp only [item, nextIs, next?, left_leave_of_suffix h, span_leave h]
    rfl
  | cons tree rest =>
    have hrest := (List.suffix_cons tree rest).trans h
    rw [Declaration.item]
    by_cases huse : tree.isIdent "use" = true
    · simp only [item, nextIs, next?, left_leave_of_suffix h, List.head?_cons, Option.any_some,
        huse, if_true, advance_leave h, Checked.ofFault_ok, Checked.ok_bind,
        skip_separator_leave hrest]
      have hdropped := (suffix_dropSeparator rest).trans hrest
      rw [Frame.run_items cursor _ hdropped]
      cases hitems : items .top [] [] cursor.stop (dropSeparator rest) with
      | error failure => rfl
      | ok value => exact finish_leave ((suffix_of_items hitems).trans hdropped) value.1
    · simp only [item, nextIs, next?, left_leave_of_suffix h, span_leave h, List.head?_cons,
        Option.any_some, if_neg huse]
      rfl

theorem leave_left {cursor : Cursor} (h : cursor.position ≤ cursor.level.length) :
    cursor.leave cursor.left = cursor := by
  rw [leave, left, List.length_drop, Nat.sub_sub_self h]

theorem length_lt_of_item {cursor next : Cursor} {bindings : List Binding}
    (h : cursor.item = .ok (bindings, next)) : next.left.length < cursor.left.length := by
  by_cases hposition : cursor.position ≤ cursor.level.length
  · have hleft : cursor.left <:+ cursor.level := List.drop_suffix _ _
    rw [← leave_left hposition, item_leave hleft] at h
    cases hitem : Declaration.item cursor.stop cursor.left with
    | error failure =>
      rw [hitem] at h
      cases h
    | ok value =>
      rw [hitem] at h
      cases h
      obtain ⟨clauses, used, htrees, -⟩ := spelled_of_item hitem
      rw [left_leave htrees]
      exact Declaration.length_lt_of_item hitem
  · have hempty : cursor.left = [] :=
      List.drop_eq_nil_of_le (Nat.le_of_lt (Nat.lt_of_not_le hposition))
    simp only [item, nextIs, next?, hempty] at h
    cases h

/-- The cursor behind the `#` of a declaration, where the style has one. -/
def introduce (style : Style) (cursor : Cursor) : Checked Cursor :=
  match style with
  | .pound => do
    let (_, cursor) ← Checked.ofFault cursor.advance
    return cursor
  | .bare => return cursor

theorem length_le_of_introduce {style : Style} {cursor start : Cursor}
    (h : cursor.introduce style = .ok start) : start.left.length ≤ cursor.left.length := by
  cases style with
  | bare =>
    cases h
    exact Nat.le_refl _
  | pound =>
    obtain ⟨⟨tree, next⟩, hadvance, h⟩ := Checked.bind_eq_ok.mp h
    cases h
    rw [(weight_of_advance (Checked.ofFault_eq_ok.mp hadvance)).1]
    exact Nat.le_succ _

/-- Read declarations up to the first tree that does not start one. -/
def leading (style : Style) (cursor : Cursor) : Checked (List Binding × Cursor) :=
  if cursor.atDeclaration style then
    match _ : cursor.introduce style with
    | .error halt => .error halt
    | .ok start =>
      match _ : start.item with
      | .error halt => .error halt
      | .ok (bindings, next) =>
        (leading style next).map fun (more, cursor) => (bindings ++ more, cursor)
  else .ok ([], cursor)
termination_by cursor.left.length
decreasing_by exact Nat.lt_of_lt_of_le (length_lt_of_item ‹_›) (length_le_of_introduce ‹_›)

theorem leading_eq (style : Style) (cursor : Cursor) :
    cursor.leading style =
      if cursor.atDeclaration style then do
        let start ← cursor.introduce style
        let (bindings, next) ← start.item
        let (more, cursor) ← next.leading style
        return (bindings ++ more, cursor)
      else .ok ([], cursor) := by
  rw [leading]
  split
  · split
    · next hintroduce =>
      rw [hintroduce]
      rfl
    · next start hintroduce =>
      rw [hintroduce, Checked.ok_bind]
      split
      · next hitem =>
        rw [hitem]
        rfl
      · next bindings next hitem =>
        rw [hitem, Checked.ok_bind]
        dsimp only
        cases leading style next <;> rfl
  · rfl

theorem introduce_leave {style : Style} {cursor : Cursor} {trees declared : Forest}
    (h : trees <:+ cursor.level) (hdeclared : introduced? style trees = some declared) :
    (cursor.leave trees).introduce style = .ok (cursor.leave declared) ∧
      declared <:+ cursor.level := by
  unfold introduced? at hdeclared
  split at hdeclared
  · split at hdeclared
    · cases hdeclared
      refine ⟨?_, (List.suffix_cons _ _).trans h⟩
      rw [introduce, advance_leave h]
      rfl
    · cases hdeclared
  · split at hdeclared
    · cases hdeclared
      exact ⟨rfl, h⟩
    · cases hdeclared
  · cases hdeclared

/-- Declarations are read with the loop as they are by recursion. -/
theorem leading_leave (style : Style) {cursor : Cursor} {trees : Forest}
    (h : trees <:+ cursor.level) :
    (cursor.leave trees).leading style =
      cursor.settle (Declaration.leading style cursor.stop trees) := by
  fun_induction Declaration.leading style cursor.stop trees with
  | case1 trees hnone =>
    rw [leading_eq, atDeclaration, left_leave_of_suffix h, hnone]
    rfl
  | case2 trees declared hdeclared failure hitem =>
    obtain ⟨hintroduce, hsuffix⟩ := introduce_leave h hdeclared
    rw [leading_eq, atDeclaration, left_leave_of_suffix h, hdeclared, hintroduce, Checked.ok_bind,
      item_leave hsuffix, hitem]
    rfl
  | case3 trees declared hdeclared bindings left hitem ih =>
    obtain ⟨hintroduce, hsuffix⟩ := introduce_leave h hdeclared
    obtain ⟨clauses, used, hused, -⟩ := spelled_of_item hitem
    have hleft : left <:+ declared := hused ▸ List.suffix_append used left
    rw [leading_eq, atDeclaration, left_leave_of_suffix h, hdeclared, hintroduce, Checked.ok_bind,
      item_leave hsuffix, hitem, settle, Checked.ok_bind]
    dsimp only
    rw [ih (hleft.trans hsuffix)]
    cases Declaration.leading style cursor.stop left <;> rfl

/-- The declarations at the head of a level are read as they are by recursion. -/
theorem leading_start (style : Style) (stop : Span) (trees : Forest) :
    leading style { level := trees, stop } =
      settle { level := trees, stop } (Declaration.leading style stop trees) := by
  have hleading := @leading_leave style { level := trees, stop } trees List.suffix_rfl
  rw [leave_start] at hleading
  exact hleading

end Cursor

end Qualify
