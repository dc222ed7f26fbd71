import TapeMachine.Proofs.Smoothness

namespace TapeMachine

namespace Typing

variable {typing next : Typing} {survey : Survey} {reading : Reading} {name : String} {place : Location} {start : Nat}

/-- Only the stack has changed. -/
structure Kept (typing next : Typing) : Prop where
  signatures : next.signatures = typing.signatures
  bindings : next.bindings = typing.bindings

theorem Kept.trans {last : Typing} (first : typing.Kept next) (second : next.Kept last) : typing.Kept last :=
  ⟨second.signatures.trans first.signatures, second.bindings.trans first.bindings⟩

/-- Where only the stack changes, a point differs from an earlier one in its types and its address. -/
theorem Kept.point (kept : typing.Kept next) (address : Nat) :
    next.point address = ⟨address, fun name => typing.signatures.get? name ≠ none, typing.bindings, next.types⟩ := by
  rw [Typing.point, kept.signatures, kept.bindings]

theorem point_of_types {types : List Ty} (same : typing.types = types) (address : Nat) :
    typing.point address =
      ⟨address, fun name => typing.signatures.get? name ≠ none, typing.bindings, types⟩ := by
  rw [Typing.point, same]

theorem Kept.proper (kept : typing.Kept next) (proper : typing.Proper survey) : next.Proper survey where
  declared := kept.signatures ▸ proper.declared
  builtin := kept.signatures ▸ proper.builtin
  apart := kept.bindings ▸ proper.apart

theorem placed_eq_ok {α : Type} {outcome : Outcome α} {made : α} {workspace after : Workspace}
    (done : placed outcome place workspace = (.ok made, after)) : outcome = .ok made := by
  cases outcome with
  | error => cases done
  | ok found => cases done; rfl

/-- A name that is bound inside a block is one of the block's own, or was bound before. -/
theorem get?_bind {scope : Scope Ty} {names : List String} {values : List Ty}
    (bound : (scope.bind names values).get? name ≠ none) : name ∈ names ∨ scope.get? name ≠ none := by
  rw [Scope.get?, Scope.bind, List.findSome?_cons] at bound
  cases found : (Dictionary.ofList (names.zip values)).get? name with
  | none =>
    rw [found] at bound
    exact .inr bound
  | some t =>
    rcases Dictionary.get?_insertAll found with before | member
    · cases before
    · exact .inl (List.of_mem_zip member).1

/-- A block may bind names that no function has. -/
theorem Proper.bind (proper : typing.Proper survey) {names : List String} {types : List Ty}
    (signatures : next.signatures = typing.signatures) (bindings : next.bindings = typing.bindings.bind names types)
    (apart : ∀ name ∈ names, ∀ signature, ¬ survey.declares name signature) : next.Proper survey where
  declared := signatures ▸ proper.declared
  builtin := signatures ▸ proper.builtin
  apart := by
    intro name bound
    rw [bindings] at bound
    rcases get?_bind bound with member | before
    · exact apart name member
    · exact proper.apart name before

/-- The number that decides about a block is one, as far as the reading is concerned. -/
theorem decides_of_smooth {visit : Visit} {t : Ty} {rest : List Ty} (smooth : visit.Smooth survey reading)
    (matched : visit.matched = [Ty.number].zip (t :: rest)) (accepted : Ty.number.accepts t = true) :
    reading.Widens t .number := by
  refine smooth.matched (.number, t) ?_ accepted
  rw [matched]
  exact List.mem_cons_self

theorem length_of_size {first second : Typing} (same : first.stack.size = second.stack.size) :
    first.types.length = second.types.length := by
  rw [types, types, ← first.stack.size_eq, ← second.stack.size_eq, same]

/-- The survey of an item begins with the item itself. -/
theorem mem_visits (item : Item) (start : Nat) (typing : Typing) :
    ⟨start, typing, some item⟩ ∈ item.visits start typing := by
  unfold Item.visits
  exact List.mem_cons_self

/-- Where the items pass a check that has been smooth, they flow from point to point. -/
def Passes (survey : Survey) (reading : Reading) (modules : Modules) (items : List Item) : Prop :=
  ∀ {typing next : Typing} {start : Nat} {workspace after : Workspace}, typing.Proper survey →
    checkAll modules typing items workspace = (.ok next, after) →
    (∀ visit ∈ visitsOf start typing items, visit.Smooth survey reading) →
    survey.Level reading (typing.point start) (Piece.ofItems items) (next.point (start + span items)) ∧ typing.Kept next

def ItemPasses (survey : Survey) (reading : Reading) (modules : Modules) (item : Item) : Prop :=
  ∀ {typing next : Typing} {start : Nat} {workspace after : Workspace}, typing.Proper survey →
    check modules typing item workspace = (.ok next, after) →
    (∀ visit ∈ item.visits start typing, visit.Smooth survey reading) →
    survey.Flows reading (typing.point start) item (next.point (start + item.width)) ∧ typing.Kept next

variable {modules : Modules} {middle stop : Location} {names : List String} {heading : Heading}
  {body first second : List Item}

theorem Proper.taken (proper : typing.Proper survey) : typing.opened.Proper survey :=
  ⟨proper.declared, proper.builtin, proper.apart⟩

/-- The body is walked from behind the number that decides. That it leaves as many types as it has found, and types
that can stand for those, makes the way past the block and the way through it meet. -/
theorem passes_branch (free : (Item.branch place body stop).standsAlone = true)
    (inner : Passes survey reading modules body) :
    ItemPasses survey reading modules (.branch place body stop) := by
  intro typing next start workspace after proper checked smooth
  have past := past_item free checked
  simp only [Item.visits, List.forall_mem_cons, List.forall_mem_append, past] at smooth
  obtain ⟨here, inside, last, -⟩ := smooth
  obtain ⟨opened, _, taken, further⟩ := Build.andThen_eq_ok checked
  obtain ⟨closed, _, walked, done⟩ := Build.andThen_eq_ok further
  obtain ⟨rfl, t, split, accepted⟩ := operand_eq_ok (placed_eq_ok taken)
  split at done
  · rename_i same
    cases done
    obtain ⟨level, kept⟩ := inner proper.taken walked inside
    have kept : typing.Kept next := ⟨kept.signatures, kept.bindings⟩
    have decides := decides_of_smooth here (congrArg ([Ty.number].zip ·) split) accepted
    have meet := here.joined _ List.mem_cons_self
    simp only [past_eq free walked] at meet
    obtain ⟨widens, -⟩ := meet (length_of_size same.symm)
    rw [kept.point] at level
    rw [point_of_types split, kept.point, Item.add_width]
    exact ⟨.branch decides level widens last.visited, kept⟩
  · cases done

/-- Both ways start behind the number that decides, and the stacks at their ends can stand for one another. -/
theorem passes_choice (free : (Item.choice place first middle second stop).standsAlone = true)
    (consequent : Passes survey reading modules first) (alternative : Passes survey reading modules second) :
    ItemPasses survey reading modules (.choice place first middle second stop) := by
  intro typing next start workspace after proper checked smooth
  have past := past_item free checked
  obtain ⟨free, freeToo⟩ := Bool.and_eq_true_iff.1 free
  simp only [Item.visits, List.forall_mem_cons, List.forall_mem_append, past] at smooth
  obtain ⟨here, ⟨inside, between, beyond⟩, last, -⟩ := smooth
  obtain ⟨opened, _, taken, further⟩ := Build.andThen_eq_ok checked
  obtain ⟨left, _, walked, further⟩ := Build.andThen_eq_ok further
  obtain ⟨right, _, walkedToo, done⟩ := Build.andThen_eq_ok further
  obtain ⟨rfl, t, split, accepted⟩ := operand_eq_ok (placed_eq_ok taken)
  split at done
  · rename_i same
    obtain ⟨level, kept⟩ := consequent proper.taken walked inside
    have pastLeft : typing.otherwise first = { left with stack := typing.opened.stack } := by
      rw [otherwise, past_eq free walked]
    have keptLeft : typing.Kept { left with stack := typing.opened.stack } := ⟨kept.signatures, kept.bindings⟩
    rw [pastLeft] at beyond
    obtain ⟨levelToo, keptToo⟩ := alternative (keptLeft.proper proper) walkedToo beyond
    have decides := decides_of_smooth here (congrArg ([Ty.number].zip ·) split) accepted
    have meet := here.joined _ List.mem_cons_self
    simp only [past_eq free walked, pastLeft, past_eq freeToo walkedToo] at meet
    obtain ⟨-, widens⟩ := meet (length_of_size same)
    cases done
    have keptLast := keptLeft.trans keptToo
    have keptNext : typing.Kept { right with stack := left.stack } := ⟨keptLast.signatures, keptLast.bindings⟩
    have keptFirst : typing.Kept left := ⟨kept.signatures, kept.bindings⟩
    rw [keptFirst.point] at level
    rw [keptLeft.point, keptLast.point] at levelToo
    rw [point_of_types split, keptNext.point, Item.add_width]
    exact ⟨.choice decides rfl level between.visited levelToo widens last.visited, keptNext⟩
  · cases done

/-- The body meets itself: what it leaves is what it starts from, whether it runs again or not. -/
theorem passes_repeats (free : (Item.repeats place body stop).standsAlone = true)
    (inner : Passes survey reading modules body) : ItemPasses survey reading modules (.repeats place body stop) := by
  intro typing next start workspace after proper checked smooth
  have past := past_item free checked
  simp only [Item.visits, List.forall_mem_cons, List.forall_mem_append, past] at smooth
  obtain ⟨here, inside, last, -⟩ := smooth
  obtain ⟨opened, _, taken, walked⟩ := Build.andThen_eq_ok checked
  obtain ⟨rfl, t, split, accepted⟩ := operand_eq_ok (placed_eq_ok taken)
  obtain ⟨level, kept⟩ := inner proper.taken walked inside
  have kept : typing.Kept next := ⟨kept.signatures, kept.bindings⟩
  have decides := decides_of_smooth here (congrArg ([Ty.number].zip ·) split) accepted
  have same := here.steady _ List.mem_cons_self
  have meet := here.joined _ List.mem_cons_self
  simp only [past_eq free walked] at same meet
  obtain ⟨widens, again⟩ := meet (length_of_size same)
  rw [kept.point] at level
  rw [point_of_types split, kept.point, Item.add_width]
  exact ⟨.repeats decides level widens again last.visited, kept⟩

/-- Two places where stacks meet: behind the test, where a number lies on top of what the loop has started from, and
behind the body, where the test starts again. -/
theorem passes_loop (free : (Item.loop place first middle second stop).standsAlone = true)
    (test : Passes survey reading modules first) (inner : Passes survey reading modules second) :
    ItemPasses survey reading modules (.loop place first middle second stop) := by
  intro typing next start workspace after proper checked smooth
  have past := past_item free checked
  obtain ⟨free, freeToo⟩ := Bool.and_eq_true_iff.1 free
  simp only [Item.visits, List.forall_mem_cons, List.forall_mem_append, past] at smooth
  obtain ⟨here, ⟨inside, between, beyond⟩, last, -⟩ := smooth
  obtain ⟨tested, _, walked, further⟩ := Build.andThen_eq_ok checked
  split at further
  · rename_i deeper
    obtain ⟨opened, _, taken, walkedToo⟩ := Build.andThen_eq_ok further
    obtain ⟨rfl, t, split, accepted⟩ := operand_eq_ok (placed_eq_ok taken)
    have pastTest := past_eq free walked
    rw [pastTest] at beyond
    obtain ⟨level, kept⟩ := test proper walked inside
    have keptOpened : typing.Kept tested.opened := ⟨kept.signatures, kept.bindings⟩
    obtain ⟨levelToo, keptToo⟩ := inner (keptOpened.proper proper) walkedToo beyond
    have keptNext := keptOpened.trans keptToo
    have matched : Visit.matched ⟨start, typing, some (.loop place first middle second stop)⟩ =
        [Ty.number].zip (t :: tested.opened.types) := by
      show [Ty.number].zip (typing.past first).types = _
      rw [pastTest, split]
    have decides := decides_of_smooth here matched accepted
    have left := here.joined _ List.mem_cons_self
    have same := here.steady _ List.mem_cons_self
    have meet := here.joined _ (List.mem_cons_of_mem _ List.mem_cons_self)
    simp only [pastTest, past_eq freeToo walkedToo] at left same meet
    obtain ⟨leaves, again⟩ := meet (length_of_size same)
    have longer : (Ty.number :: typing.types).length = tested.types.length := by
      rw [List.length_cons, types, types, ← typing.stack.size_eq, ← tested.stack.size_eq, deeper]
    obtain ⟨-, back⟩ := left longer
    rw [split] at back
    cases back with
    | cons _ back =>
      rw [kept.point, split] at level
      rw [keptOpened.point, keptNext.point] at levelToo
      rw [keptNext.point, Item.add_width]
      exact ⟨.loop decides rfl level levelToo leaves (again.trans back) last.visited, keptNext⟩
  · cases further

/-- The names take their types off the stack; behind the block they are gone, and the types do not come back. -/
theorem passes_bind (free : (Item.bind place names body stop).standsAlone = true)
    (apart : ∀ name ∈ names, ∀ signature, ¬ survey.declares name signature)
    (inner : Passes survey reading modules body) : ItemPasses survey reading modules (.bind place names body stop) := by
  intro typing next start workspace after proper checked smooth
  have past := past_item free checked
  simp only [Item.visits, List.forall_mem_cons, List.forall_mem_append, past] at smooth
  obtain ⟨here, inside, marked, last, -⟩ := smooth
  obtain ⟨opened, _, taken, further⟩ := Build.andThen_eq_ok checked
  obtain ⟨closed, _, walked, done⟩ := Build.andThen_eq_ok further
  obtain ⟨bound, signatures, found, split, count, bindings⟩ := bind_eq_ok (placed_eq_ok taken)
  cases done
  rw [bound] at inside marked
  rw [past_eq free walked] at marked
  obtain ⟨level, kept⟩ := inner (proper.bind signatures bindings apart) walked inside
  have keptNext : typing.Kept closed.unbind := by
    refine ⟨kept.signatures.trans signatures, ?_⟩
    rw [unbind, kept.bindings, bindings]
    rfl
  rw [kept.point, point, signatures, bindings] at level
  rw [point_of_types split, keptNext.point, Item.add_width]
  exact ⟨.bind count level marked.visited last.visited, keptNext⟩

/-- As with names, but the type of a cell is that of its address, and nothing is taken off the stack. -/
theorem passes_cell (free : (Item.cell place name body stop).standsAlone = true)
    (apart : ∀ signature, ¬ survey.declares name signature)
    (inner : Passes survey reading modules body) : ItemPasses survey reading modules (.cell place name body stop) := by
  intro typing next start workspace after proper checked smooth
  have past := past_item free checked
  simp only [Item.visits, List.forall_mem_cons, List.forall_mem_append, past] at smooth
  obtain ⟨here, inside, last, -⟩ := smooth
  obtain ⟨closed, _, walked, done⟩ := Build.andThen_eq_ok checked
  cases done
  have bound : (typing.cell name).Proper survey := by
    refine proper.bind rfl rfl ?_
    intro other member
    rw [List.mem_singleton.1 member]
    exact apart
  obtain ⟨level, kept⟩ := inner bound walked inside
  have keptNext : typing.Kept closed.unbind := by
    refine ⟨kept.signatures, ?_⟩
    rw [unbind, kept.bindings]
    rfl
  rw [kept.point] at level
  rw [keptNext.point, Item.add_width]
  exact ⟨.cell level last.visited, keptNext⟩

mutual

/-- Items without definitions that pass a check flow. -/
theorem item_passes (consistent : survey.Consistent reading) (modules : Modules) (item : Item)
    (free : item.standsAlone = true) (plain : item.plain = true)
    (apart : ∀ name ∈ item.boundNames, ∀ signature, ¬ survey.declares name signature) :
    ItemPasses survey reading modules item := by
  cases item with
  | number place n =>
    intro typing next start workspace after proper checked smooth
    obtain ⟨signatures, bindings, types⟩ := push_eq_ok (placed_eq_ok checked)
    have kept : typing.Kept next := ⟨signatures, bindings⟩
    rw [kept.point, types]
    exact ⟨.number, kept⟩
  | string place text =>
    intro typing next start workspace after proper checked smooth
    obtain ⟨signatures, bindings, types⟩ := push_eq_ok (placed_eq_ok checked)
    have kept : typing.Kept next := ⟨signatures, bindings⟩
    rw [kept.point, types]
    exact ⟨.string, kept⟩
  | word place name =>
    intro typing next start workspace after proper checked smooth
    obtain ⟨flows, signatures, bindings⟩ :=
      flows_word consistent proper (placed_eq_ok checked) (smooth _ List.mem_cons_self)
    exact ⟨flows, signatures, bindings⟩
  | imports => cases free
  | branch place body stop => exact passes_branch free (items_pass consistent modules body free plain apart)
  | choice place first middle second stop =>
    obtain ⟨left, right⟩ := Bool.and_eq_true_iff.1 free
    obtain ⟨plainLeft, plainRight⟩ := Bool.and_eq_true_iff.1 plain
    obtain ⟨apartLeft, apartRight⟩ := List.forall_mem_append.1 apart
    exact passes_choice free (items_pass consistent modules first left plainLeft apartLeft)
      (items_pass consistent modules second right plainRight apartRight)
  | repeats place body stop => exact passes_repeats free (items_pass consistent modules body free plain apart)
  | loop place first middle second stop =>
    obtain ⟨left, right⟩ := Bool.and_eq_true_iff.1 free
    obtain ⟨plainLeft, plainRight⟩ := Bool.and_eq_true_iff.1 plain
    obtain ⟨apartLeft, apartRight⟩ := List.forall_mem_append.1 apart
    exact passes_loop free (items_pass consistent modules first left plainLeft apartLeft)
      (items_pass consistent modules second right plainRight apartRight)
  | bind place names body stop =>
    obtain ⟨here, inside⟩ := List.forall_mem_append.1 apart
    exact passes_bind free here (items_pass consistent modules body free plain inside)
  | cell place name body stop =>
    obtain ⟨here, inside⟩ := List.forall_mem_cons.1 apart
    exact passes_cell free here (items_pass consistent modules body free plain inside)
  | define => cases plain

/-- The same for items that stand one behind the other: the check goes on where the last item has left it. -/
theorem items_pass (consistent : survey.Consistent reading) (modules : Modules) (items : List Item)
    (free : standAlone items = true) (plain : allPlain items = true)
    (apart : ∀ name ∈ namesIn items, ∀ signature, ¬ survey.declares name signature) :
    Passes survey reading modules items := by
  intro typing next start workspace after proper checked smooth
  match items with
  | [] =>
    cases checked
    exact ⟨.nil, rfl, rfl⟩
  | item :: rest =>
    obtain ⟨freeItem, freeRest⟩ := Bool.and_eq_true_iff.1 free
    obtain ⟨plainItem, plainRest⟩ := Bool.and_eq_true_iff.1 plain
    obtain ⟨apartItem, apartRest⟩ := List.forall_mem_append.1 apart
    obtain ⟨between, _, walked, further⟩ := Build.andThen_eq_ok checked
    rw [visitsOf, List.forall_mem_append, past_item freeItem walked] at smooth
    obtain ⟨here, later⟩ := smooth
    obtain ⟨flows, kept⟩ := item_passes consistent modules item freeItem plainItem apartItem proper walked here
    obtain ⟨level, keptToo⟩ :=
      items_pass consistent modules rest freeRest plainRest apartRest (kept.proper proper) further later
    rw [span_cons, ← Nat.add_assoc]
    exact ⟨.item (here _ (mem_visits ..)).visited flows level, kept.trans keptToo⟩

end

/-- A function becomes known by a signature that its program declares, and no builtin is forgotten. -/
theorem Proper.define (proper : typing.Proper survey) {signature : Signature}
    (declares : survey.declares heading.name signature)
    (signatures : next.signatures = typing.signatures.insert heading.name signature)
    (bindings : next.bindings = typing.bindings) : next.Proper survey where
  declared := by
    intro name other found
    rw [signatures, Dictionary.get?_insert] at found
    split at found
    · rename_i same
      cases found
      exact .inl (same ▸ declares)
    · exact proper.declared name other found
  builtin := by
    intro word
    rw [signatures, Dictionary.get?_insert]
    split
    · exact Option.some_ne_none _
    · exact proper.builtin word
  apart := bindings ▸ proper.apart

/-- A function that passes a check does what it declares, and is known behind its definition. -/
theorem passes_define (free : (Item.define place heading body stop).standsAlone = true)
    (inner : Passes survey reading modules body)
    (declares : ∀ signature, heading.signature = .ok signature → survey.declares heading.name signature)
    {workspace after : Workspace} (proper : typing.Proper survey) (outside : typing.bindings = {})
    (checked : check modules typing (.define place heading body stop) workspace = (.ok next, after))
    (smooth : ∀ visit ∈ (Item.define place heading body stop).visits start typing, visit.Smooth survey reading) :
    survey.Flows reading (typing.point start) (.define place heading body stop)
        (next.point (start + (Item.define place heading body stop).width)) ∧
      next.Proper survey ∧ next.bindings = {} := by
  have past := past_item free checked
  simp only [Item.visits, List.cons_append, List.forall_mem_cons, List.forall_mem_append, past] at smooth
  obtain ⟨here, noop, enter, inside, returns, dropped, last, -⟩ := smooth
  obtain ⟨signature, _, named, further⟩ := Build.andThen_eq_ok checked
  obtain ⟨opened, _, begun, further⟩ := Build.andThen_eq_ok further
  obtain ⟨closed, _, walked, further⟩ := Build.andThen_eq_ok further
  obtain ⟨_, _, concluded, done⟩ := Build.andThen_eq_ok further
  cases done
  have declared := placed_eq_ok named
  obtain ⟨entered, signatures, bindings, begins⟩ := enter_eq_ok declared (placed_eq_ok begun)
  have known := proper.define (declares signature declared) signatures bindings
  rw [entered] at noop enter inside returns
  rw [past_eq free walked] at returns
  obtain ⟨level, kept⟩ := inner known walked inside
  have keptNext : opened.Kept { closed with stack := typing.stack } := ⟨kept.signatures, kept.bindings⟩
  have learns : ∀ name, opened.signatures.get? name ≠ none →
      name = heading.name ∨ typing.signatures.get? name ≠ none := by
    intro name found
    rw [signatures, Dictionary.get?_insert] at found
    split at found
    · rename_i same
      exact .inl same.symm
    · exact .inr found
  have widens : reading.WidensAll closed.types signature.outputs.reverse := by
    have matched := here.matched
    simp only [Visit.matched, declared, entered, past_eq free walked] at matched
    have accepted := conclude_eq_ok (placed_eq_ok concluded)
    rw [← List.reverse_reverse closed.types]
    refine widensAll_of_accepted accepted ?_
    rw [List.reverse_reverse]
    exact matched
  have noop := noop.visited
  have enter := enter.visited
  rw [begins] at noop enter
  rw [kept.point, point_of_types begins, bindings, outside] at level
  have whole : survey.Level reading
      ⟨start + 1, fun name => opened.signatures.get? name ≠ none, {}, signature.inputs.reverse⟩
      (.mark .noop place :: .mark .enter place :: Piece.ofItems body)
      ⟨start + 3 + span body, fun name => opened.signatures.get? name ≠ none, {}, closed.types⟩ :=
    .pass Walker.quiet_noop noop (.pass (by intro names same; cases same) enter level)
  refine ⟨?_, keptNext.proper known, (kept.bindings.trans bindings).trans outside⟩
  rw [keptNext.point, bindings, Item.add_width]
  exact .define (declares signature declared) learns rfl whole returns.visited widens dropped.visited last.visited

/-- A program that passes a check flows to its end. -/
theorem program_passes (consistent : survey.Consistent reading) {items : List Item} (free : standAlone items = true)
    (flattened : flat items = true) (apart : ∀ name ∈ namesIn items, ∀ signature, ¬ survey.declares name signature)
    (declares : ∀ heading ∈ headings items, ∀ signature, heading.signature = .ok signature →
      survey.declares heading.name signature)
    {workspace after : Workspace} (proper : typing.Proper survey) (outside : typing.bindings = {})
    (checked : checkAll modules typing items workspace = (.ok next, after))
    (smooth : ∀ visit ∈ visitsOf start typing items, visit.Smooth survey reading) :
    survey.Level reading (typing.point start) (Piece.ofItems items) (next.point (start + span items)) := by
  induction items generalizing typing start workspace with
  | nil =>
    cases checked
    exact .nil
  | cons item rest ih =>
    obtain ⟨freeItem, freeRest⟩ := Bool.and_eq_true_iff.1 free
    obtain ⟨flatItem, flatRest⟩ := Bool.and_eq_true_iff.1 flattened
    obtain ⟨apartItem, apartRest⟩ := List.forall_mem_append.1 apart
    obtain ⟨between, _, walked, further⟩ := Build.andThen_eq_ok checked
    rw [visitsOf, List.forall_mem_append, past_item freeItem walked] at smooth
    obtain ⟨here, later⟩ := smooth
    have declaresRest : ∀ heading ∈ headings rest, ∀ signature, heading.signature = .ok signature →
        survey.declares heading.name signature := by
      intro heading member
      refine declares heading ?_
      rw [headings, List.filterMap_cons]
      split
      · exact member
      · exact List.mem_cons_of_mem _ member
    obtain ⟨flows, proper, outside⟩ :
        survey.Flows reading (typing.point start) item (between.point (start + item.width)) ∧
        between.Proper survey ∧ between.bindings = {} := by
      by_cases plain : item.plain = true
      · obtain ⟨flows, kept⟩ := item_passes consistent modules item freeItem plain apartItem proper walked here
        exact ⟨flows, kept.proper proper, kept.bindings.trans outside⟩
      · cases item with
        | define place heading body stop =>
          have inner : Passes survey reading modules body :=
            items_pass consistent modules body freeItem flatItem apartItem
          exact passes_define freeItem inner (declares heading List.mem_cons_self) proper outside walked here
        | _ => exact (plain flatItem).elim
    rw [span_cons, ← Nat.add_assoc]
    exact .item (here _ (mem_visits ..)).visited flows
      (ih freeRest flatRest apartRest declaresRest proper outside further later)

end Typing

namespace Dictionary

variable {α β : Type}

theorem get?_insertAll_of_get? {dictionary : Dictionary α} {name : String} (entries : List (String × α))
    (found : dictionary.get? name ≠ none) : (dictionary.insertAll entries).get? name ≠ none := by
  induction entries generalizing dictionary with
  | nil => exact found
  | cons entry rest ih =>
    refine @ih (dictionary.insert entry.1 entry.2) ?_
    rw [get?_insert]
    split
    · exact Option.some_ne_none _
    · exact found

/-- Every name of a list of entries is known behind it, whatever stands twice. -/
theorem get?_insertAll_of_mem {dictionary : Dictionary α} {entries : List (String × α)} {entry : String × α}
    (member : entry ∈ entries) : (dictionary.insertAll entries).get? entry.1 ≠ none := by
  induction entries generalizing dictionary with
  | nil => cases member
  | cons first rest ih =>
    rcases List.mem_cons.1 member with same | later
    · have inserted : (dictionary.insert first.1 first.2).get? entry.1 ≠ none := by
        rw [get?_insert, same, if_pos rfl]
        exact Option.some_ne_none _
      exact get?_insertAll_of_get? rest inserted
    · exact @ih (dictionary.insert first.1 first.2) later

end Dictionary

/-- The builtins by their names. -/
def Builtin.table : Dictionary Builtin :=
  .ofList (all.map fun word => (word.name, word))

/-- Tables of the builtins differ in what is said of a word only. -/
theorem Builtin.ofList_all {α : Type} (f : Builtin → α) :
    Dictionary.ofList (all.map fun word => (word.name, f word)) = table.map f := by
  rw [table, Dictionary.ofList, Dictionary.ofList, Dictionary.map_insertAll, List.map_map]
  rfl

theorem Builtin.name_of_table {name : String} {word : Builtin} (found : table.get? name = some word) :
    word.name = name := by
  rcases Dictionary.get?_insertAll found with none | member
  · cases none
  · obtain ⟨other, -, same⟩ := List.mem_map.1 member
    cases same
    rfl

theorem Builtin.table_name (word : Builtin) : table.get? word.name ≠ none := by
  have member : (word.name, word) ∈ all.map fun word => (word.name, word) := List.mem_map.2 ⟨word, mem_all word, rfl⟩
  rw [table, Dictionary.ofList]
  exact Dictionary.get?_insertAll_of_mem member

theorem Typing.get?_start (name : String) :
    start.signatures.get? name = (Builtin.table.get? name).map Builtin.signature := by
  rw [start, Builtin.ofList_all, Dictionary.get?_map]

/-- A check begins with the signatures of the builtins and no bindings. -/
theorem Typing.start_proper (survey : Survey) : start.Proper survey where
  declared := by
    intro name signature found
    rw [get?_start] at found
    obtain ⟨word, named, rfl⟩ := Option.map_eq_some_iff.1 found
    exact .inr ⟨word, Builtin.name_of_table named, rfl⟩
  builtin := by
    intro word none
    rw [get?_start, Option.map_eq_none_iff] at none
    exact word.table_name none
  apart := by
    intro name bound
    exact (bound rfl).elim

/-- A walker at the beginning of a program knows the builtins that the check knows there, and its stack is empty as
the check's is. -/
theorem Walker.start_follows {survey : Survey} {reading : Reading} {items : List Item} {there : Point} (capacity : Nat)
    (level : survey.Level reading (Typing.start.point 0) (Piece.ofItems items) there) (empty : there.types = []) :
    Follows survey reading (start capacity items) := by
  have functions : ∀ name,
      (start capacity items).functions.get? name = (Builtin.table.get? name).map Routine.builtin := by
    intro name
    rw [start, Builtin.ofList_all, Dictionary.get?_map]
  refine ⟨_, there, [], [], rfl, level, ⟨⟨[], rfl, .nil⟩, [], rfl, .nil⟩, ?_, ?_, ?_⟩
  · intro name known none
    rw [functions, Option.map_eq_none_iff] at none
    refine known ?_
    rw [Typing.get?_start, none]
    rfl
  · obtain ⟨address, known, scope, types⟩ := there
    cases empty
    exact .program
  · intro name routine found
    rw [functions] at found
    obtain ⟨word, named, rfl⟩ := Option.map_eq_some_iff.1 found
    exact Builtin.name_of_table named

/-- A program is accepted where the walk over its items ends with no types on the stack. -/
theorem Settings.check_eq_ok {settings : Settings} {items : List Item} {workspace : Workspace}
    (accepted : (settings.check items workspace).1.isOk = true) :
    ∃ modules typing after,
      Typing.checkAll modules .start items workspace = (.ok typing, after) ∧ typing.types = [] := by
  cases checked : settings.check items workspace with
  | mk outcome after =>
    cases outcome with
    | error => rw [checked] at accepted; cases accepted
    | ok typing =>
      obtain ⟨found, between, walked, done⟩ := Build.andThen_eq_ok checked
      split at done
      · rename_i empty
        refine ⟨_, found, between, walked, List.eq_nil_of_length_eq_zero ?_⟩
        rw [Typing.types, ← found.stack.size_eq, empty]
      · cases done

/-- A run of a program that passes a check follows what the check has found out. -/
theorem Session.follows {survey : Survey} {reading : Reading} {settings : Settings} {items : List Item}
    {workspace before : Workspace} {failed : Bool} {run : Run} (consistent : survey.Consistent reading)
    (declares : survey.declares = Declares items) (free : standAlone items = true) (flattened : flat items = true)
    (apart : ∀ heading ∈ headings items, heading.name ∉ namesIn items)
    (accepted : (settings.check items workspace).1.isOk = true)
    (smooth : ∀ visit ∈ visits items, visit.Smooth survey reading)
    (session : Session settings items workspace failed run before) :
    Stage (Walker.Follows survey reading) reading.Allows failed run := by
  obtain ⟨modules, typing, after, checked, empty⟩ := Settings.check_eq_ok accepted
  have unbound : ∀ name ∈ namesIn items, ∀ signature, ¬ survey.declares name signature := by
    rw [declares]
    rintro name bound signature ⟨heading, member, rfl, -⟩
    exact apart heading member bound
  have known : ∀ heading ∈ headings items, ∀ signature, heading.signature = .ok signature →
      survey.declares heading.name signature := by
    rw [declares]
    exact fun heading member signature declared => ⟨heading, member, rfl, declared⟩
  have level := Typing.program_passes consistent free flattened unbound known (Typing.start_proper survey) rfl checked
    smooth
  exact session.stage (Walker.upholds_follows survey reading) free (Walker.start_follows _ level empty)

end TapeMachine
