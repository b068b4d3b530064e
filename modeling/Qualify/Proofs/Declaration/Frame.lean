import Qualify.Proofs.Declaration.Reading
import Qualify.Proofs.Tree.Nesting

/-!
# Frames

`Declaration.items` reads braces by recursion and cannot be called outside its domain.
Here the same is done with operations that can: a loop over a stack of frames, one for
each open pair of braces, that takes trees off cursors and segments off paths. A `Halt`
is a fault of such an operation or a refusal of the trees. Every round of the loop
leaves less on the stack than it took off it (`Frame.size_lt_of_step`), so the loop ends.

## Main definitions

- `Halt` — the ways a checked reader stops short
- `Frame` — a level of items that is being read
- `Frame.step`, `Frame.run` — one round of the loop, and the loop

## Design notes

A cursor is moved along its level by `Cursor.leave`, so the trees that are left are
always an end of the level. What an operation does is stated for `cursor.leave trees`,
where `trees` is such an end.
-/

namespace Qualify

/-- The ways a checked reader stops short: outside the domain of an operation, or at
trees that are malformed. -/
inductive Halt where
  | fault (fault : Fault)
  | refusal (error : SyntaxError)
deriving DecidableEq, Repr

/-- A value, unless it was stopped short. -/
abbrev Checked := Except Halt

/-- Refuse the trees that come next. -/
def refuse {α : Type} (cause : Cause) (span : Span) : Checked α := .error (.refusal ⟨cause, span⟩)

/-- The result of an operation that has a domain. -/
def Checked.ofFault {α : Type} : Except Fault α → Checked α := Except.mapError .fault

/-- The result of a reader that can only refuse. -/
def Checked.ofRefusal {α : Type} : Except SyntaxError α → Checked α := Except.mapError .refusal

theorem Checked.bind_eq_ok {α β : Type} {value : Checked α} {next : α → Checked β} {result : β} :
    (value >>= next) = .ok result ↔ ∃ first, value = .ok first ∧ next first = .ok result := by
  cases value <;> simp [bind, Except.bind]

theorem Checked.ok_bind {α β : Type} (value : α) (next : α → Checked β) :
    ((.ok value : Checked α) >>= next) = next value := rfl

theorem Checked.ofFault_eq_ok {α : Type} {value : Except Fault α} {result : α} :
    ofFault value = .ok result ↔ value = .ok result := by
  cases value with
  | error fault => exact ⟨nofun, nofun⟩
  | ok found =>
    constructor
    · rintro ⟨⟩
      rfl
    · rintro ⟨⟩
      rfl

@[simp] theorem Checked.ofFault_ok {α : Type} (value : α) : ofFault (.ok value) = .ok value := rfl

@[simp] theorem Checked.ofRefusal_ok {α : Type} (value : α) :
    ofRefusal (.ok value) = .ok value := rfl

/-! ### Cursors -/

namespace Cursor

/-- The tree that comes next. -/
def next? (cursor : Cursor) : Option Tree := cursor.left.head?

/-- Whether the tree that comes next passes a test. -/
def nextIs (cursor : Cursor) (test : Tree → Bool) : Bool := cursor.next?.any test

/-- The cursor behind an operator, if it comes next, and where it stands otherwise. -/
def skip (cursor : Cursor) (op : List Char) : Cursor := (cursor.accept? op).getD cursor

theorem left_leave_of_suffix {cursor : Cursor} {trees : Forest} (h : trees <:+ cursor.level) :
    (cursor.leave trees).left = trees := by
  obtain ⟨front, hfront⟩ := h
  rw [left, leave, ← hfront]
  simp

/-- A cursor that was not moved stands in front of its level. -/
theorem leave_start (level : Forest) (stop : Span) :
    Cursor.leave { level, stop } level = { level, stop } := by
  rw [leave, Nat.sub_self]

variable {cursor : Cursor} {tree : Tree} {rest : Forest}

theorem span_leave {trees : Forest} (h : trees <:+ cursor.level) :
    (cursor.leave trees).span = Declaration.spanAt cursor.stop trees := by
  rw [span, left_leave_of_suffix h]
  rfl

theorem next?_leave (h : tree :: rest <:+ cursor.level) :
    (cursor.leave (tree :: rest)).next? = some tree := by
  rw [next?, left_leave_of_suffix h]
  rfl

theorem nextIs_leave (test : Tree → Bool) (h : tree :: rest <:+ cursor.level) :
    (cursor.leave (tree :: rest)).nextIs test = test tree := by
  rw [nextIs, next?_leave h]
  rfl

theorem advance_leave (h : tree :: rest <:+ cursor.level) :
    (cursor.leave (tree :: rest)).advance = .ok (tree, cursor.leave rest) := by
  rw [advance, left_leave_of_suffix h]
  rfl

theorem accept?_leave {trees : Forest} (op : List Char) (h : trees <:+ cursor.level) :
    (cursor.leave trees).accept? op =
      if trees.startsWith op then some (cursor.leave (trees.drop op.length)) else none := by
  rw [accept?, left_leave_of_suffix h]
  rfl

theorem accept?_comma_leave (h : tree :: rest <:+ cursor.level) :
    (cursor.leave (tree :: rest)).accept? [','] =
      if tree.isPunct "," then some (cursor.leave rest) else none :=
  accept?_leave [','] h

theorem startsWith_separator (trees : Forest) :
    trees.startsWith [':', ':'] = trees.startsWithSeparator := by
  match trees with
  | [] => rfl
  | [tree] => exact Bool.and_false _
  | first :: second :: rest => rfl

theorem skip_separator_leave {trees : Forest} (h : trees <:+ cursor.level) :
    (cursor.leave trees).skip [':', ':'] = cursor.leave (Declaration.dropSeparator trees) := by
  rw [skip, accept?_leave _ h, startsWith_separator, Declaration.dropSeparator]
  split <;> rfl

end Cursor

theorem Tree.length_events_pos (tree : Tree) : 0 < tree.events.length := by
  cases tree <;> simp [Tree.events]

namespace Cursor

variable {cursor : Cursor} {tree : Tree}

/-- The number of events that are left. -/
def weight (cursor : Cursor) : Nat := cursor.left.events.length

theorem weight_of_advance {next : Cursor} (h : cursor.advance = .ok (tree, next)) :
    cursor.left = tree :: next.left ∧ cursor.weight = tree.events.length + next.weight := by
  unfold advance at h
  split at h
  · cases h
  · next left hleft =>
    cases h
    have hused : cursor.left = [tree] ++ left := hleft
    rw [weight, weight, left_leave hused, hleft, Forest.events, List.length_append]
    exact ⟨rfl, rfl⟩

theorem weight_lt_of_advance {next : Cursor} (h : cursor.advance = .ok (tree, next)) :
    next.weight < cursor.weight := by
  rw [(weight_of_advance h).2]
  exact Nat.lt_add_of_pos_left tree.length_events_pos

theorem weight_lt_of_accept? {c : Char} {op : List Char} {next : Cursor}
    (h : cursor.accept? (c :: op) = some next) : next.weight < cursor.weight := by
  unfold accept? at h
  split at h
  · next hstarts =>
    cases h
    cases hleft : cursor.left with
    | nil =>
      rw [hleft] at hstarts
      cases op <;> cases hstarts
    | cons tree rest =>
      have hused : cursor.left = tree :: rest.take op.length ++ rest.drop op.length := by
        rw [hleft, List.cons_append, List.take_append_drop]
      have hpos := tree.length_events_pos
      rw [List.length_cons, List.drop_succ_cons, weight, weight, left_leave hused, hused,
        Forest.events_append, Forest.events, List.length_append, List.length_append]
      omega
  · cases h

theorem weight_skip_le (c : Char) (op : List Char) :
    (cursor.skip (c :: op)).weight ≤ cursor.weight := by
  cases haccept : cursor.accept? (c :: op) with
  | none =>
    rw [skip, haccept]
    exact Nat.le_refl _
  | some next =>
    rw [skip, haccept]
    exact Nat.le_of_lt (weight_lt_of_accept? haccept)

end Cursor

/-! ### Paths -/

namespace Path

/-- The path that a chain leads to: a `self` at its end is taken off. -/
def target (path : Path) : Checked Path := do
  match ← Checked.ofFault path.last with
  | .name ident =>
    if ident.text = "self" then
      let (_, front) ← Checked.ofFault path.pop
      if front.isEmpty then refuse .selfAlone ident.span else return front
    else return path
  | .placeholder .. => return path

/-- Bind a chain under the last name of its path. -/
def bound (path : Path) : Checked Binding := do
  let path ← path.target
  let last ← Checked.ofFault path.last
  let name ← Checked.ofRefusal last.bindingName
  return ⟨name, path⟩

theorem last_concat (front : Path) (last : Segment) : Path.last (front ++ [last]) = .ok last := by
  simp [Path.last]

theorem pop_concat (front : Path) (last : Segment) :
    Path.pop (front ++ [last]) = .ok (last, front) := by
  simp [Path.pop]

theorem target_concat (front : Path) (last : Segment) :
    Path.target (front ++ [last]) = Checked.ofRefusal (Binding.target front last) := by
  unfold Path.target Binding.target
  rw [last_concat]
  cases last with
  | placeholder marker tree => rfl
  | name ident =>
    by_cases hself : ident.text = "self"
    · simp only [Checked.ofFault_ok, pop_concat, hself, bind, Except.bind, if_true]
      split <;> rfl
    · simp only [Checked.ofFault_ok, hself, bind, Except.bind, if_false]
      rfl

theorem bound_concat (front : Path) (last : Segment) :
    Path.bound (front ++ [last]) = Checked.ofRefusal (Binding.plain front last) := by
  unfold Path.bound Binding.plain
  rw [target_concat]
  cases htarget : Binding.target front last with
  | error error => rfl
  | ok path =>
    obtain ⟨hself, rfl⟩ := Declaration.target_eq_ok_iff.mp htarget
    -- What is left without a `self` at the end still has a last segment.
    cases hlast : (Declaration.Clause.path front [] last).getLast? with
    | none => exact absurd (List.getLast?_eq_none_iff.mp hlast) hself.path_ne_nil
    | some segment =>
      simp only [Checked.ofRefusal_ok, bind, Except.bind, Path.last, hlast, Checked.ofFault_ok,
        Option.getD_some]
      cases segment.bindingName <;> rfl

end Path

namespace Declaration

/-! ### Frames -/

/-- A level of items that is being read: the path its items start from, the path of the
item that is being read, and whether a group was just read. -/
structure Frame where
  place : Place
  parent : Path
  path : Path
  cursor : Cursor
  afterGroup : Bool := false
deriving DecidableEq, Repr

/-- What a round of the loop comes to. -/
inductive Move where
  /-- The level has ended. -/
  | leave (cursor : Cursor) (bindings : List Binding)
  /-- The level goes on. -/
  | stay (frame : Frame) (bindings : List Binding)
  /-- Braces are opened, and the level goes on behind them. -/
  | enter (outer inner : Frame)
deriving DecidableEq, Repr

namespace Frame

/-- Whether the items of the level have ended. -/
def atEnd (frame : Frame) : Checked Bool :=
  if frame.cursor.nextIs (·.isPunct ";") then
    match frame.place with
    | .top => return true
    | .nested => refuse .semicolonInBraces frame.cursor.span
  else return frame.cursor.isEmpty

/-- Read a segment. -/
def segment (cursor : Cursor) : Checked (Segment × Cursor) :=
  match cursor.next? with
  | none => .error (.fault .endOfLevel)
  | some tree =>
    if tree.isPunct "*" then refuse .glob tree.span
    else
      match tree with
      | .token (.ident ident) => do
        let (_, cursor) ← Checked.ofFault cursor.advance
        return (.name ident, cursor)
      | .token (.punct marker) =>
        if marker.text = "#" then do
          let (_, cursor) ← Checked.ofFault cursor.advance
          if cursor.isEmpty then refuse .missingPlaceholder cursor.span
          else
            let (value, cursor) ← Checked.ofFault cursor.advance
            return (.placeholder marker value, cursor)
        else refuse (.missingSegment (.ofForest cursor.left)) cursor.span
      | _ => refuse (.missingSegment (.ofForest cursor.left)) cursor.span

/-- Read the alias of the path. -/
def renamed (frame : Frame) : Checked (Binding × Cursor) := do
  let (word, cursor) ← Checked.ofFault frame.cursor.advance
  let path ← frame.path.target
  match cursor.next? with
  | none => refuse (.missingAlias .nothing) word.span
  | some tree =>
    match tree.ident? with
    | none => refuse (.missingAlias (.ofForest cursor.left)) cursor.span
    | some name =>
      let (_, cursor) ← Checked.ofFault cursor.advance
      return (⟨name, path⟩, cursor)

/-- Read the comma behind an alias or a group. -/
def separator (frame : Frame) (ended : Ended) : Checked Cursor :=
  match frame.cursor.accept? [','] with
  | some cursor => return cursor
  | none =>
    if ended = .group && frame.cursor.nextIs (·.isIdent "as") then
      refuse .renamedGroup frame.cursor.span
    else if ended = .renaming && frame.cursor.left.startsWith [':', ':'] then
      refuse .aliasContinued frame.cursor.span
    else refuse (.missingSeparator ended frame.place (.ofForest frame.cursor.left)) frame.cursor.span

/-- Go on behind an alias or a group. -/
def separate (frame : Frame) (ended : Ended) (bindings : List Binding) : Checked Move := do
  if ← frame.atEnd then return .leave frame.cursor bindings
  else
    let cursor ← frame.separator ended
    return .stay { frame with cursor, path := frame.parent, afterGroup := false } bindings

/-- Go on behind a segment. -/
def extend (frame : Frame) : Checked Move :=
  match frame.cursor.accept? [','] with
  | some cursor => do
    let binding ← frame.path.bound
    return .stay { frame with cursor, path := frame.parent } [binding]
  | none => do
    if ← frame.atEnd then
      let binding ← frame.path.bound
      return .stay { frame with path := frame.parent } [binding]
    else if frame.cursor.nextIs (·.isIdent "as") then
      let (binding, cursor) ← frame.renamed
      separate { frame with cursor } .renaming [binding]
    else if frame.cursor.left.startsWith [':', ':'] then
      let last ← Checked.ofFault frame.path.last
      if last.isSelf then refuse .selfContinued frame.cursor.span
      else
        let cursor := frame.cursor.skip [':', ':']
        if segmentFollows cursor.left then return .stay { frame with cursor } []
        else refuse (.danglingSeparator (.ofForest cursor.left)) cursor.span
    else refuse (.unendedChain frame.place (.ofForest frame.cursor.left)) frame.cursor.span

/-- One round of the loop. -/
def step (frame : Frame) : Checked Move := do
  if frame.afterGroup then frame.separate .group []
  else if ← frame.atEnd then return .leave frame.cursor []
  else
    match frame.cursor.next? with
    | some (.group .brace inner span) =>
      let (_, cursor) ← Checked.ofFault frame.cursor.advance
      return .enter { frame with cursor, afterGroup := true }
        { place := .nested, parent := frame.path, path := frame.path,
          cursor := { level := inner, stop := span } }
    | _ =>
      let (last, cursor) ← segment frame.cursor
      extend { frame with cursor, path := frame.path ++ [last] }

/-! ### Every round takes something off the stack -/

/-- The size of a frame on the stack. -/
def size (frame : Frame) : Nat := frame.cursor.weight + 1

end Frame

/-- The size of the frames that a round puts on the stack. -/
def Move.size : Move → Nat
  | leave _ _ => 0
  | stay frame _ => frame.size
  | enter outer inner => outer.size + inner.size

namespace Frame

theorem weight_lt_of_separator {frame : Frame} {ended : Ended} {cursor : Cursor}
    (h : frame.separator ended = .ok cursor) : cursor.weight < frame.cursor.weight := by
  unfold separator at h
  split at h
  · next haccept =>
    cases h
    exact Cursor.weight_lt_of_accept? haccept
  split at h
  · cases h
  split at h <;> cases h

theorem size_lt_of_separate {frame : Frame} {ended : Ended} {bindings : List Binding} {move : Move}
    (h : frame.separate ended bindings = .ok move) : move.size < frame.size := by
  obtain ⟨atEnd, -, h⟩ := Checked.bind_eq_ok.mp h
  split at h
  · cases h
    exact Nat.succ_pos _
  · obtain ⟨cursor, hseparator, h⟩ := Checked.bind_eq_ok.mp h
    cases h
    exact Nat.succ_lt_succ (weight_lt_of_separator hseparator)

theorem weight_lt_of_segment {cursor next : Cursor} {last : Segment}
    (h : segment cursor = .ok (last, next)) : next.weight < cursor.weight := by
  unfold segment at h
  split at h
  · cases h
  split at h
  · cases h
  split at h
  · obtain ⟨⟨tree, behind⟩, hadvance, h⟩ := Checked.bind_eq_ok.mp h
    cases h
    exact Cursor.weight_lt_of_advance (Checked.ofFault_eq_ok.mp hadvance)
  · split at h
    · obtain ⟨⟨marker, middle⟩, hmarker, h⟩ := Checked.bind_eq_ok.mp h
      have hmiddle := Cursor.weight_lt_of_advance (Checked.ofFault_eq_ok.mp hmarker)
      dsimp only at h
      split at h
      · cases h
      · obtain ⟨⟨value, behind⟩, hvalue, h⟩ := Checked.bind_eq_ok.mp h
        cases h
        have hbehind := Cursor.weight_lt_of_advance (Checked.ofFault_eq_ok.mp hvalue)
        exact Nat.lt_trans hbehind hmiddle
    · cases h
  · cases h

theorem weight_lt_of_renamed {frame : Frame} {binding : Binding} {cursor : Cursor}
    (h : frame.renamed = .ok (binding, cursor)) : cursor.weight < frame.cursor.weight := by
  obtain ⟨⟨word, behind⟩, hword, h⟩ := Checked.bind_eq_ok.mp h
  have hbehind := Cursor.weight_lt_of_advance (Checked.ofFault_eq_ok.mp hword)
  obtain ⟨path, -, h⟩ := Checked.bind_eq_ok.mp h
  split at h
  · cases h
  split at h
  · cases h
  · obtain ⟨⟨value, last⟩, hvalue, h⟩ := Checked.bind_eq_ok.mp h
    cases h
    exact Nat.lt_trans (Cursor.weight_lt_of_advance (Checked.ofFault_eq_ok.mp hvalue)) hbehind

theorem size_le_of_extend {frame : Frame} {move : Move} (h : frame.extend = .ok move) :
    move.size ≤ frame.size := by
  unfold extend at h
  split at h
  · next haccept =>
    obtain ⟨binding, -, h⟩ := Checked.bind_eq_ok.mp h
    cases h
    exact Nat.succ_le_succ (Nat.le_of_lt (Cursor.weight_lt_of_accept? haccept))
  obtain ⟨atEnd, -, h⟩ := Checked.bind_eq_ok.mp h
  split at h
  · obtain ⟨binding, -, h⟩ := Checked.bind_eq_ok.mp h
    cases h
    exact Nat.le_refl _
  split at h
  · obtain ⟨⟨binding, cursor⟩, hrenamed, h⟩ := Checked.bind_eq_ok.mp h
    have hcursor := weight_lt_of_renamed hrenamed
    exact Nat.le_trans (Nat.le_of_lt (size_lt_of_separate h)) (Nat.le_of_lt (Nat.succ_lt_succ hcursor))
  split at h
  · obtain ⟨last, -, h⟩ := Checked.bind_eq_ok.mp h
    split at h
    · cases h
    dsimp only at h
    split at h
    · cases h
      exact Nat.succ_le_succ (Cursor.weight_skip_le ..)
    · cases h
  · cases h

/-- A round leaves less on the stack than it took off it: a group that is entered counts
for more than its contents. -/
theorem size_lt_of_step {frame : Frame} {move : Move} (h : frame.step = .ok move) :
    move.size < frame.size := by
  unfold step at h
  split at h
  · exact size_lt_of_separate h
  obtain ⟨atEnd, -, h⟩ := Checked.bind_eq_ok.mp h
  split at h
  · cases h
    exact Nat.succ_pos _
  split at h
  · next inner span hnext =>
    obtain ⟨⟨tree, cursor⟩, hadvance, h⟩ := Checked.bind_eq_ok.mp h
    cases h
    obtain ⟨hleft, hweight⟩ := Cursor.weight_of_advance (Checked.ofFault_eq_ok.mp hadvance)
    rw [Cursor.next?, hleft] at hnext
    cases hnext
    simp only [Move.size, size, hweight, Tree.events, List.length_cons, List.length_append]
    simp only [Cursor.weight, Cursor.left, List.drop_zero, List.length_nil]
    omega
  · obtain ⟨⟨last, cursor⟩, hsegment, h⟩ := Checked.bind_eq_ok.mp h
    have hcursor := weight_lt_of_segment hsegment
    exact Nat.lt_of_le_of_lt (size_le_of_extend h) (Nat.succ_lt_succ hcursor)

/-- The size of a stack of frames. -/
def stackSize : List Frame → Nat
  | [] => 0
  | frame :: enclosing => frame.size + stackSize enclosing

/-- The loop, from the innermost frame of a stack and the bindings read so far to all
bindings and the cursor behind the outermost level. -/
def run (frame : Frame) (enclosing : List Frame) (read : List Binding) :
    Checked (List Binding × Cursor) :=
  match _ : frame.step with
  | .error halt => .error halt
  | .ok (.leave cursor bindings) =>
    match enclosing with
    | [] => .ok (read ++ bindings, cursor)
    | outer :: enclosing => run outer enclosing (read ++ bindings)
  | .ok (.stay next bindings) => run next enclosing (read ++ bindings)
  | .ok (.enter outer inner) => run inner (outer :: enclosing) read
termination_by frame.size + stackSize enclosing
decreasing_by
  all_goals
    have hsize := size_lt_of_step ‹_›
    simp only [Move.size, stackSize] at hsize ⊢
    omega

end Frame

end Declaration

end Qualify
