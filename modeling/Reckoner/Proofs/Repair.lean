/-
  Grouping and writing out undo each other.

  `Token.groupAll` makes groups of the parentheses of a row, `Token.flatAll` writes groups out as
  parentheses again.  A row need not balance, and then grouping it has to lose or to add something.
  What it does to the row is a repair in one reading from left to right: a `)` that nothing is open
  for is left out, and what is still open at the end is closed there (`Token.repair`).

  1. **There and back (`flatAll_groupAll`)** — a row that is grouped and written out again is the
     repaired row, and nothing needs repair if the parentheses balance.  By the recursion on rows;
     it needs that a stray `)` can only stand outside all parentheses, which is what a depth says
     (`repairFrom_append`).

  2. **Back and there (`groupAll_flatAll`)** — a tree that is written out and grouped again is the
     tree.  By induction on the tree; what is written out balances (`depthAfter?_flatAll_of_plain`).

  3. **No parenthesis is left (`arePlain_groupAll`)**, at any depth, so there is nothing to group a
     second time (`groupAll_groupAll`).
-/
import Reckoner.Proofs.Flattening

namespace Reckoner.Token

/-! ## Repair -/

/-- A row with each `)` left out that nothing is open for, and with everything closed at the end,
    if some parentheses are open before it. -/
def repairFrom : Nat → List Token → List Token
  | depth, [] => List.replicate depth .closing
  | depth, .opening :: rest => .opening :: repairFrom (depth + 1) rest
  | 0, .closing :: rest => repairFrom 0 rest
  | depth + 1, .closing :: rest => .closing :: repairFrom depth rest
  | depth, token :: rest => token :: repairFrom depth rest

/-- A row whose parentheses are made to balance. -/
def repair (tokens : List Token) : List Token :=
  repairFrom 0 tokens

theorem repairFrom_item {token : Token} (h : token.isItem = true) (depth : Nat)
    (rest : List Token) : repairFrom depth (token :: rest) = token :: repairFrom depth rest := by
  cases token with
  | opening => cases h
  | closing => cases h
  | number _ => cases depth <;> rfl
  | operator _ => cases depth <;> rfl
  | group _ => cases depth <;> rfl

/-- A row that has a depth closes nothing that is not open, so it is kept as it stands. -/
theorem repairFrom_append {depth depth' : Nat} {tokens : List Token}
    (h : depthAfter? depth tokens = some depth') (rest : List Token) :
    repairFrom depth (tokens ++ rest) = tokens ++ repairFrom depth' rest := by
  induction tokens generalizing depth with
  | nil =>
    obtain rfl : depth = depth' := Option.some.inj h
    rfl
  | cons token tokens ih =>
    rcases token.isItem_or_parenthesis with hitem | rfl | rfl
    · rw [depthAfter?_item hitem] at h
      rw [List.cons_append, repairFrom_item hitem, ih h]
      rfl
    · exact congrArg (.opening :: ·) (ih h)
    · cases depth with
      | zero => cases h
      | succ depth => exact congrArg (.closing :: ·) (ih h)

/-- What is still open at the end is closed there. -/
theorem repairFrom_of_depth {depth depth' : Nat} {tokens : List Token}
    (h : depthAfter? depth tokens = some depth') :
    repairFrom depth tokens = tokens ++ List.replicate depth' .closing := by
  have happend := repairFrom_append h []
  rw [List.append_nil] at happend
  rw [happend]
  cases depth' <;> rfl

/-- A row that balances needs no repair. -/
theorem repair_of_balanced {tokens : List Token} (h : Balanced tokens) :
    repair tokens = tokens := by
  rw [repair, repairFrom_of_depth (balanced_iff.1 h)]
  exact List.append_nil tokens

/-- More open parentheses around a row only add to its depth. -/
theorem depthAfter?_add {depth depth' : Nat} {tokens : List Token}
    (h : depthAfter? depth tokens = some depth') (n : Nat) :
    depthAfter? (depth + n) tokens = some (depth' + n) :=
  Brackets.depthAfter?_add h n

theorem repair_closing (rest : List Token) : repair (.closing :: rest) = repair rest :=
  rfl

/-- Behind a balanced pair of parentheses the repair goes on as from the front. -/
theorem repair_bracket {inner : List Token} (h : depthAfter? 0 inner = some 0)
    (rest : List Token) :
    repair (.opening :: inner ++ .closing :: rest) =
      .opening :: inner ++ .closing :: repair rest := by
  have hinner : repairFrom 1 (inner ++ .closing :: rest) = inner ++ .closing :: repair rest :=
    repairFrom_append (depthAfter?_add h 1) (.closing :: rest)
  show Token.opening :: repairFrom 1 (inner ++ .closing :: rest) = _
  rw [hinner]
  rfl

/-- An opening parenthesis that is never closed is closed behind everything else. -/
theorem repair_unclosed {inner : List Token} {depth : Nat} (h : depthAfter? 0 inner = some depth) :
    repair (.opening :: inner) = .opening :: repair inner ++ [.closing] := by
  have houter : repairFrom 1 inner = inner ++ List.replicate (depth + 1) .closing :=
    repairFrom_of_depth (depthAfter?_add h 1)
  have hinner : repair inner = inner ++ List.replicate depth .closing := repairFrom_of_depth h
  show Token.opening :: repairFrom 1 inner = _
  rw [houter, hinner, List.replicate_succ', List.cons_append, List.append_assoc]

/-! ## Rows without groups -/

/-- No token of the row is a group. -/
def Ungrouped (tokens : List Token) : Prop :=
  ∀ children, .group children ∉ tokens

namespace Ungrouped

variable {token : Token} {tokens tokens' : List Token}

theorem tail (h : Ungrouped (token :: tokens)) : Ungrouped tokens :=
  fun children hmem => h children (List.mem_cons_of_mem _ hmem)

theorem left (h : Ungrouped (tokens ++ tokens')) : Ungrouped tokens :=
  fun children hmem => h children (List.mem_append_left _ hmem)

theorem right (h : Ungrouped (tokens ++ tokens')) : Ungrouped tokens' :=
  fun children hmem => h children (List.mem_append_right _ hmem)

/-- An item of such a row is a number or an operator. -/
theorem head (h : Ungrouped (token :: tokens)) (hitem : token.isItem = true) :
    token.flat = [token] ∧ token.isPlain = true := by
  cases token with
  | opening => cases hitem
  | closing => cases hitem
  | number _ => exact ⟨rfl, rfl⟩
  | operator _ => exact ⟨rfl, rfl⟩
  | group children => exact (h children List.mem_cons_self).elim

end Ungrouped

/-- **Grouping a row and writing the groups out again repairs it.** -/
theorem flatAll_groupAll {tokens : List Token} (h : Ungrouped tokens) :
    flatAll (groupAll tokens) = repair tokens := by
  induction tokens using row_induction with
  | nil => rfl
  | item token rest hitem ih =>
    rw [groupAll_item hitem, flatAll_item (h.head hitem).1, ih h.tail, repair, repair,
      repairFrom_item hitem]
  | closing rest ih => rw [groupAll_closing, repair_closing, ih h.tail]
  | bracket inner rest hinner ihinner ihrest =>
    have hkept : repair inner = inner := repair_of_balanced (balanced_iff.2 hinner)
    rw [groupAll_bracket hinner, flatAll_group, ihinner h.left.tail, ihrest h.right.tail, hkept,
      repair_bracket hinner]
  | unclosed inner depth hinner ih =>
    rw [groupAll_unclosed hinner, flatAll_group, ih h.tail, repair_unclosed hinner]
    rfl

/-- No parenthesis is left at any depth. -/
theorem arePlain_groupAll {tokens : List Token} (h : Ungrouped tokens) :
    arePlain (groupAll tokens) = true := by
  induction tokens using row_induction with
  | nil => rfl
  | item token rest hitem ih =>
    rw [groupAll_item hitem, arePlain_cons]
    exact ⟨(h.head hitem).2, ih h.tail⟩
  | closing rest ih => exact ih h.tail
  | bracket inner rest hinner ihinner ihrest =>
    rw [groupAll_bracket hinner, arePlain_cons]
    exact ⟨ihinner h.left.tail, ihrest h.right.tail⟩
  | unclosed inner depth hinner ih =>
    rw [groupAll_unclosed hinner, arePlain_cons]
    exact ⟨ih h.tail, rfl⟩

/-- A row of items is left as it is. -/
theorem groupAll_of_items {tokens : List Token} (h : ∀ token ∈ tokens, token.isItem = true) :
    groupAll tokens = tokens := by
  induction tokens with
  | nil => rfl
  | cons token rest ih =>
    rw [groupAll_item (h token List.mem_cons_self),
      ih fun token hmem => h token (List.mem_cons_of_mem _ hmem)]

/-- Grouping a second time changes nothing. -/
theorem groupAll_groupAll (tokens : List Token) : groupAll (groupAll tokens) = groupAll tokens :=
  groupAll_of_items (isItem_of_mem_groupAll tokens)

/-! ## Trees -/

/-- **A tree, taken apart from the front.**  A group comes with the contents it holds. -/
@[elab_as_elim]
theorem plain_induction {motive : List Token → Prop} (nil : motive [])
    (number : ∀ text rest, motive rest → motive (.number text :: rest))
    (operator : ∀ op rest, motive rest → motive (.operator op :: rest))
    (group : ∀ children rest, arePlain children = true → motive children → motive rest →
      motive (.group children :: rest)) :
    ∀ tree : List Token, arePlain tree = true → motive tree
  | [], _ => nil
  | .number text :: rest, h =>
    number text rest (plain_induction nil number operator group rest (arePlain_cons.1 h).2)
  | .operator op :: rest, h =>
    operator op rest (plain_induction nil number operator group rest (arePlain_cons.1 h).2)
  | .group children :: rest, h =>
    group children rest (arePlain_cons.1 h).1
      (plain_induction nil number operator group children (arePlain_cons.1 h).1)
      (plain_induction nil number operator group rest (arePlain_cons.1 h).2)
  | .opening :: _, h => nomatch (arePlain_cons.1 h).1
  | .closing :: _, h => nomatch (arePlain_cons.1 h).1

/-- A tree that is written out balances. -/
theorem depthAfter?_flatAll_of_plain {tree : List Token} (h : arePlain tree = true) :
    depthAfter? 0 (flatAll tree) = some 0 := by
  refine plain_induction ?nil ?number ?operator ?group tree h
  case nil => rfl
  case number =>
    intro text rest ih
    rw [flatAll_item rfl, depthAfter?_item rfl, ih]
  case operator =>
    intro op rest ih
    rw [flatAll_item rfl, depthAfter?_item rfl, ih]
  case group =>
    intro children rest _ ihchildren ihrest
    rw [flatAll_group, depthAfter?_bracket ihchildren, ihrest]

/-- **Writing a tree out and grouping it again gives the tree.** -/
theorem groupAll_flatAll {tree : List Token} (h : arePlain tree = true) :
    groupAll (flatAll tree) = tree := by
  refine plain_induction ?nil ?number ?operator ?group tree h
  case nil => rfl
  case number =>
    intro text rest ih
    rw [flatAll_item rfl, groupAll_item rfl, ih]
  case operator =>
    intro op rest ih
    rw [flatAll_item rfl, groupAll_item rfl, ih]
  case group =>
    intro children rest hchildren ihchildren ihrest
    rw [flatAll_group, groupAll_bracket (depthAfter?_flatAll_of_plain hchildren), ihchildren,
      ihrest]

/-! ## The main statement -/

/-- **Grouping is the inverse of writing out, and repairs what does not balance.**  For a row of
    numbers, operators and parentheses, the grouped row written out again is the repaired row,
    which is the row itself if it balances; the grouped row holds no parenthesis at any depth, and
    grouping it a second time changes nothing.  A tree that is written out and grouped is the tree
    again. -/
theorem groupAll_inverts_flatAll :
    (∀ tokens : List Token, Ungrouped tokens →
      flatAll (groupAll tokens) = repair tokens ∧
        (Balanced tokens → repair tokens = tokens) ∧
        arePlain (groupAll tokens) = true ∧
        groupAll (groupAll tokens) = groupAll tokens) ∧
      ∀ tree : List Token, arePlain tree = true → groupAll (flatAll tree) = tree :=
  ⟨fun tokens h => ⟨flatAll_groupAll h, repair_of_balanced, arePlain_groupAll h,
    groupAll_groupAll tokens⟩, fun _ h => groupAll_flatAll h⟩

/-- In `) ( 1 ( ) !` the first parenthesis closes nothing, and the second is never closed. -/
theorem groupAll_inverts_flatAll_unbalanced :
    Ungrouped [.closing, .opening, .number "1", .opening, .closing, .operator .factorial] ∧
      flatAll (groupAll
          [.closing, .opening, .number "1", .opening, .closing, .operator .factorial]) =
        [.opening, .number "1", .opening, .closing, .operator .factorial, .closing] ∧
      Ungrouped [.opening, .number "1", .opening, .closing, .operator .factorial, .closing] ∧
      Balanced [.opening, .number "1", .opening, .closing, .operator .factorial, .closing] ∧
      repair [.opening, .number "1", .opening, .closing, .operator .factorial, .closing] =
        [.opening, .number "1", .opening, .closing, .operator .factorial, .closing] ∧
      arePlain [.group [.number "1", .group [], .operator .factorial]] = true ∧
      groupAll (flatAll [.group [.number "1", .group [], .operator .factorial]]) =
        [.group [.number "1", .group [], .operator .factorial]] := by
  have hstray : Ungrouped
      [.closing, .opening, .number "1", .opening, .closing, .operator .factorial] := by
    simp [Ungrouped]
  have hrepaired : Ungrouped
      [.opening, .number "1", .opening, .closing, .operator .factorial, .closing] := by
    simp [Ungrouped]
  have hbalanced : Balanced
      [.opening, .number "1", .opening, .closing, .operator .factorial, .closing] :=
    balanced_iff.2 rfl
  have hplain : arePlain [.group [.number "1", .group [], .operator .factorial]] = true := rfl
  exact ⟨hstray, (groupAll_inverts_flatAll.1 _ hstray).1, hrepaired, hbalanced,
    (groupAll_inverts_flatAll.1 _ hrepaired).2.1 hbalanced, hplain,
    groupAll_inverts_flatAll.2 _ hplain⟩

end Reckoner.Token
