import TapeMachine.Program
import TapeMachine.Proofs.Grammar
import TapeMachine.Proofs.Layout

namespace TapeMachine

namespace Assembly

variable {importer : Importer} {assembly next : Assembly} {token : Token} {tokens : List Token}
variable {workspace after : Workspace} {items : List Item}

theorem run_next (read : assembly.read token = .ok (.next next)) :
    run importer assembly (token :: tokens) workspace = run importer next tokens workspace := by
  rw [run, read]

theorem expect_expect (first second : Expectation) : (assembly.expect first).expect second = assembly.expect second :=
  rfl

/-- Items one behind the other are put on the level one by one. -/
theorem addAll_cons (assembly : Assembly) (item : Item) (items : List Item) :
    assembly.addAll (item :: items) = (assembly.add item).addAll items :=
  rfl

theorem addAll_nil (expects : assembly.expects = .item) : assembly.addAll [] = assembly := by
  cases assembly
  cases expects
  rfl

theorem run_boundNames (labels : List Label) {place : Location} {names : List String} :
    run importer (assembly.expect (.boundName place names)) (labels.map Label.token ++ tokens) workspace =
      run importer (assembly.expect (.boundName place ((labels.map Label.name).reverseAux names))) tokens
        workspace := by
  induction labels generalizing names with
  | nil => rfl
  | cons label labels ih => exact (run_next rfl).trans ih

theorem run_inputTypes (labels : List Label) {place : Location} {name : String} {inputs : List String} :
    run importer (assembly.expect (.inputType place name inputs)) (labels.map Label.token ++ tokens) workspace =
      run importer (assembly.expect (.inputType place name ((labels.map Label.name).reverseAux inputs))) tokens
        workspace := by
  induction labels generalizing inputs with
  | nil => rfl
  | cons label labels ih => exact (run_next rfl).trans ih

theorem run_outputTypes (labels : List Label) {place : Location} {name : String}
    {inputs outputs : List String} :
    run importer (assembly.expect (.outputType place name inputs outputs)) (labels.map Label.token ++ tokens)
        workspace =
      run importer (assembly.expect (.outputType place name inputs
        ((labels.map Label.name).reverseAux outputs))) tokens workspace := by
  induction labels generalizing outputs with
  | nil => rfl
  | cons label labels ih => exact (run_next rfl).trans ih

theorem read_keyword (expects : assembly.expects = .item) (keyword : Keyword) (place : Location) :
    assembly.read (keyword.token place) = (assembly.keyword keyword place).map .next := by
  rw [read, expects]
  rfl

theorem run_keyword (expects : assembly.expects = .item) {keyword : Keyword} {place : Location}
    (meant : assembly.keyword keyword place = .ok next) :
    run importer assembly (keyword.token place :: tokens) workspace = run importer next tokens workspace := by
  refine run_next ?_
  rw [read_keyword expects, meant]
  rfl

theorem reverse_reverseAux {α : Type} (items : List α) : (items.reverseAux []).reverse = items := by
  rw [List.reverseAux_eq, List.append_nil, List.reverse_reverse]

/-- The `end` of a block puts the block on the level around it. -/
theorem run_end {opening : Opening} {place stop : Location} {item : Item}
    (closes : Level.close ⟨opening, place, assembly.items⟩ items stop = some item) :
    run importer ((assembly.enter opening place).addAll items) (Keyword.end_.token stop :: tokens) workspace =
      run importer (assembly.add item) tokens workspace := by
  refine run_keyword rfl ?_
  simp only [keyword, close, enter, addAll, reverse_reverseAux, closes]
  rfl

theorem run_else {place middle : Location} :
    run importer ((assembly.enter .branch place).addAll items) (Keyword.else_.token middle :: tokens) workspace =
      run importer (assembly.enter (.choice items middle) place) tokens workspace := by
  refine run_keyword rfl ?_
  simp only [keyword, alternative, enter, addAll, reverse_reverseAux]

theorem run_do {place middle : Location} :
    run importer ((assembly.enter .test place).addAll items) (Keyword.do_.token middle :: tokens) workspace =
      run importer (assembly.enter (.loop items middle) place) tokens workspace := by
  refine run_keyword rfl ?_
  simp only [keyword, body, enter, addAll, reverse_reverseAux]

mutual

/-- The tokens of a derivation put its item on the level. -/
theorem run_tokens (phrase : Phrase) {assembly : Assembly} (expects : assembly.expects = .item)
    (tokens : List Token) (workspace : Workspace) :
    run keepImports assembly (phrase.tokens ++ tokens) workspace =
      run keepImports (assembly.add phrase.item) tokens workspace := by
  cases phrase with
  | number place digits n reads =>
    refine run_next ?_
    simp only [read, expects, item, reads]
    rfl
  | string | word =>
    refine run_next ?_
    rw [read, expects]
    rfl
  | branch place body stop =>
    simp only [Phrase.tokens, List.cons_append, List.append_assoc, List.nil_append]
    rw [run_keyword expects rfl, run_tokensOf body rfl, run_end rfl, Phrase.item]
  | choice place consequent middle alternative stop =>
    simp only [Phrase.tokens, List.cons_append, List.append_assoc, List.nil_append]
    rw [run_keyword expects rfl, run_tokensOf consequent rfl, run_else, run_tokensOf alternative rfl, run_end rfl,
      Phrase.item]
  | repeats place body stop =>
    simp only [Phrase.tokens, List.cons_append, List.append_assoc, List.nil_append]
    rw [run_keyword expects rfl, run_tokensOf body rfl, run_end rfl, Phrase.item]
  | loop place test middle body stop =>
    simp only [Phrase.tokens, List.cons_append, List.append_assoc, List.nil_append]
    rw [run_keyword expects rfl, run_tokensOf test rfl, run_do, run_tokensOf body rfl, run_end rfl, Phrase.item]
  | bind place first names opening body stop =>
    simp only [Phrase.tokens, List.cons_append, List.append_assoc, List.nil_append]
    have opened : (assembly.expect (.boundName place ((names.map Label.name).reverseAux [first.name]))).read
        (Keyword.do_.token opening) =
          .ok (.next (assembly.enter (.bind (first.name :: names.map Label.name)) place)) := by
      simp [read, expect, Keyword.token, List.reverseAux_eq, enter]
    rw [run_keyword expects rfl, run_next rfl, run_boundNames names, expect_expect, run_next opened,
      run_tokensOf body rfl, run_end rfl, Phrase.item]
  | define place name inputs colon outputs opening body stop =>
    simp only [Phrase.tokens, List.cons_append, List.append_assoc, List.nil_append]
    have opened : (assembly.expect (.outputType place name.name (inputs.map Label.name)
        ((outputs.map Label.name).reverseAux []))).read (Keyword.do_.token opening) =
        .ok (.next (assembly.enter (.define ⟨name.name, inputs.map Label.name, outputs.map Label.name⟩) place)) := by
      simp [read, expect, Keyword.token, List.reverseAux_eq, enter]
    rw [run_keyword expects rfl, run_next rfl, run_inputTypes inputs, run_next rfl, reverse_reverseAux,
      run_outputTypes outputs, expect_expect, expect_expect, run_next opened, run_tokensOf body rfl, run_end rfl,
      Phrase.item]
  | cell place name body stop =>
    simp only [Phrase.tokens, List.cons_append, List.append_assoc, List.nil_append]
    rw [run_keyword expects rfl, run_next rfl, run_tokensOf body rfl, run_end rfl, Phrase.item]
    rfl
  | imports place target plain =>
    simp only [Phrase.tokens, List.cons_append, List.nil_append]
    have named : (assembly.expect (.moduleName place)).read target =
        .ok (.imports target.lexeme.contents place (assembly.expect .item)) := by
      obtain ⟨lexeme, there⟩ := target
      cases lexeme with
      | keyword keyword => exact (plain keyword rfl).elim
      | number | string | word => rfl
    rw [run_keyword expects rfl, run, show read _ target = _ from named]
    rfl

theorem run_tokensOf (phrases : List Phrase) {assembly : Assembly} (expects : assembly.expects = .item)
    (tokens : List Token) (workspace : Workspace) :
    run keepImports assembly (tokensOf phrases ++ tokens) workspace =
      run keepImports (assembly.addAll (itemsOf phrases)) tokens workspace := by
  match phrases with
  | [] => rw [itemsOf, addAll_nil expects, tokensOf, List.nil_append]
  | phrase :: rest =>
    rw [tokensOf, List.append_assoc, run_tokens phrase expects, run_tokensOf rest rfl, itemsOf, addAll_cons]

end

theorem run_error {failure : Failure} (read : assembly.read token = .error failure) :
    run importer assembly (token :: tokens) workspace ≠ (.ok items, after) := by
  rw [run, read]
  intro same
  cases same

/-- The names of a `let` go up to its `do`. -/
theorem boundNames_of_run {place : Location} {names : List String}
    (built : run importer (assembly.expect (.boundName place names)) tokens workspace = (.ok items, after)) :
    ∃ (labels : List Label) (opening : Location) (rest : List Token),
      tokens = labels.map Label.token ++ Keyword.do_.token opening :: rest ∧
      names.reverse ++ labels.map Label.name ≠ [] ∧
      run importer (assembly.enter (.bind (names.reverse ++ labels.map Label.name)) place) rest workspace =
        (.ok items, after) := by
  induction tokens generalizing names with
  | nil => cases built
  | cons token tokens ih =>
    obtain ⟨lexeme, there⟩ := token
    cases lexeme with
    | word name =>
      rw [run_next rfl, expect_expect] at built
      obtain ⟨labels, opening, rest, rfl, nonempty, onward⟩ := ih built
      rw [List.reverse_cons, List.append_assoc] at nonempty onward
      exact ⟨⟨name, there⟩ :: labels, opening, rest, rfl, nonempty, onward⟩
    | keyword keyword =>
      cases keyword with
      | do_ =>
        cases names with
        | nil => exact (run_error rfl built).elim
        | cons name names =>
          rw [run_next rfl] at built
          refine ⟨[], there, tokens, rfl, by simp, ?_⟩
          rw [List.map_nil, List.append_nil]
          exact built
      | _ => exact (run_error rfl built).elim
    | number | string => exact (run_error rfl built).elim

theorem inputTypes_of_run {place : Location} {name : String} {inputs : List String}
    (built : run importer (assembly.expect (.inputType place name inputs)) tokens workspace = (.ok items, after)) :
    ∃ (labels : List Label) (colon : Location) (rest : List Token),
      tokens = labels.map Label.token ++ Keyword.colon.token colon :: rest ∧
      run importer (assembly.expect (.outputType place name (inputs.reverse ++ labels.map Label.name) [])) rest
        workspace = (.ok items, after) := by
  induction tokens generalizing inputs with
  | nil => cases built
  | cons token tokens ih =>
    obtain ⟨lexeme, there⟩ := token
    cases lexeme with
    | word type =>
      rw [run_next rfl, expect_expect] at built
      obtain ⟨labels, colon, rest, rfl, onward⟩ := ih built
      rw [List.reverse_cons, List.append_assoc] at onward
      exact ⟨⟨type, there⟩ :: labels, colon, rest, rfl, onward⟩
    | keyword keyword =>
      cases keyword with
      | colon =>
        rw [run_next rfl, expect_expect] at built
        refine ⟨[], there, tokens, rfl, ?_⟩
        rw [List.map_nil, List.append_nil]
        exact built
      | _ => exact (run_error rfl built).elim
    | number | string => exact (run_error rfl built).elim

theorem outputTypes_of_run {place : Location} {name : String} {inputs outputs : List String}
    (built : run importer (assembly.expect (.outputType place name inputs outputs)) tokens workspace =
      (.ok items, after)) :
    ∃ (labels : List Label) (opening : Location) (rest : List Token),
      tokens = labels.map Label.token ++ Keyword.do_.token opening :: rest ∧
      run importer (assembly.enter (.define ⟨name, inputs, outputs.reverse ++ labels.map Label.name⟩) place) rest
        workspace = (.ok items, after) := by
  induction tokens generalizing outputs with
  | nil => cases built
  | cons token tokens ih =>
    obtain ⟨lexeme, there⟩ := token
    cases lexeme with
    | word type =>
      rw [run_next rfl, expect_expect] at built
      obtain ⟨labels, opening, rest, rfl, onward⟩ := ih built
      rw [List.reverse_cons, List.append_assoc] at onward
      exact ⟨⟨type, there⟩ :: labels, opening, rest, rfl, onward⟩
    | keyword keyword =>
      cases keyword with
      | do_ =>
        rw [run_next rfl] at built
        refine ⟨[], there, tokens, rfl, ?_⟩
        rw [List.map_nil, List.append_nil]
        exact built
      | _ => exact (run_error rfl built).elim
    | number | string => exact (run_error rfl built).elim

/-- The tokens derive what is left of the innermost of the open blocks and of those around it, and `items`
is the program that comes of it all. -/
inductive Completes : List Level → (before : List Item) → List Token → (items : List Item) → Prop
  | program (before : List Item) (phrases : List Phrase) :
      Completes [] before (tokensOf phrases) (before.reverse ++ itemsOf phrases)
  | close {level : Level} {levels : List Level} {before : List Item} (phrases : List Phrase) {stop : Location}
      {item : Item} {tokens : List Token} {items : List Item} :
      level.close (before.reverse ++ itemsOf phrases) stop = some item →
      Completes levels (item :: level.before) tokens items →
      Completes (level :: levels) before (tokensOf phrases ++ Keyword.end_.token stop :: tokens) items
  | alternative {place middle : Location} {outer before : List Item} {levels : List Level} (phrases : List Phrase)
      {tokens : List Token} {items : List Item} :
      Completes (⟨.choice (before.reverse ++ itemsOf phrases) middle, place, outer⟩ :: levels) [] tokens items →
      Completes (⟨.branch, place, outer⟩ :: levels) before
        (tokensOf phrases ++ Keyword.else_.token middle :: tokens) items
  | body {place middle : Location} {outer before : List Item} {levels : List Level} (phrases : List Phrase)
      {tokens : List Token} {items : List Item} :
      Completes (⟨.loop (before.reverse ++ itemsOf phrases) middle, place, outer⟩ :: levels) [] tokens items →
      Completes (⟨.test, place, outer⟩ :: levels) before
        (tokensOf phrases ++ Keyword.do_.token middle :: tokens) items

/-- An item that is already on the level may as well be derived by tokens. -/
theorem Completes.prepend {levels : List Level} {before : List Item} (phrase : Phrase)
    (completes : Completes levels (phrase.item :: before) tokens items) :
    Completes levels before (phrase.tokens ++ tokens) items := by
  have shift : ∀ phrases, (phrase.item :: before).reverse ++ itemsOf phrases =
      before.reverse ++ itemsOf (phrase :: phrases) := by
    intro phrases
    rw [List.reverse_cons, List.append_assoc, itemsOf]
    rfl
  cases completes with
  | program _ phrases =>
    rw [shift]
    exact .program before (phrase :: phrases)
  | close phrases closes later =>
    rw [shift] at closes
    rw [← List.append_assoc]
    exact .close (phrase :: phrases) closes later
  | alternative phrases later =>
    rw [shift] at later
    rw [← List.append_assoc]
    exact .alternative (phrase :: phrases) later
  | body phrases later =>
    rw [shift] at later
    rw [← List.append_assoc]
    exact .body (phrase :: phrases) later

theorem Completes.derive {levels : List Level} {before : List Item} {rest : List Token} (phrase : Phrase)
    (completes : Completes levels (phrase.item :: before) rest items) (derived : phrase.tokens ++ rest = tokens) :
    Completes levels before tokens items :=
  derived ▸ completes.prepend phrase

/-- A block that neither `else` nor `do` can split is completed by its `end`. -/
theorem Completes.closed {opening : Opening} {place : Location} {before : List Item} {levels : List Level}
    (completes : Completes (⟨opening, place, before⟩ :: levels) [] tokens items) (notBranch : opening ≠ .branch)
    (notTest : opening ≠ .test) :
    ∃ phrases stop item rest, tokens = tokensOf phrases ++ Keyword.end_.token stop :: rest ∧
      Level.close ⟨opening, place, before⟩ (itemsOf phrases) stop = some item ∧
      Completes levels (item :: before) rest items := by
  cases completes with
  | close phrases closes later => exact ⟨phrases, _, _, _, rfl, closes, later⟩
  | alternative => exact (notBranch rfl).elim
  | body => exact (notTest rfl).elim

/-- The program with one more token, an import of which is left out. -/
def Step.rest : Step → Assembly
  | .next assembly | .imports _ _ assembly => assembly

theorem lacking_of_keyword {keyword : Keyword} {place : Location}
    (meant : assembly.keyword keyword place = .ok next) (nothing : next.lacking = none) :
    assembly.lacking = none := by
  cases keyword with
  | if_ | repeat_ | while_ | let_ | fn | var | import_ => cases meant; exact nothing
  | colon => cases meant
  | else_ =>
    simp only [Assembly.keyword, alternative] at meant
    split at meant
    · cases meant; exact nothing
    · cases meant
  | do_ =>
    simp only [Assembly.keyword, body] at meant
    split at meant
    · cases meant; exact nothing
    · cases meant
  | end_ =>
    simp only [Assembly.keyword, close] at meant
    split at meant
    · cases meant
    · split at meant
      · cases meant; exact nothing
      · cases meant; cases nothing

theorem lacking_of_item (meant : assembly.item token = .ok next) (nothing : next.lacking = none) :
    assembly.lacking = none := by
  unfold item at meant
  split at meant
  · rename_i digits _
    cases parsed : Decimal.parse digits with
    | error => rw [parsed] at meant; cases meant
    | ok => rw [parsed] at meant; cases meant; exact nothing
  · cases meant; exact nothing
  · cases meant; exact nothing
  · exact lacking_of_keyword meant nothing

/-- A `while` that has lost its `do` is never forgotten. -/
theorem lacking_of_read {step : Step} (read : assembly.read token = .ok step)
    (nothing : step.rest.lacking = none) : assembly.lacking = none := by
  unfold Assembly.read at read
  split at read
  · cases meant : assembly.item token with
    | error => rw [meant] at read; cases read
    | ok => rw [meant] at read; cases read; exact lacking_of_item meant nothing
  · cases read; exact nothing
  · split at read
    · cases read
    · cases read; exact nothing
  all_goals first | (cases read; done) | (cases read; exact nothing)

theorem lacking_of_run (built : run keepImports assembly tokens workspace = (.ok items, after)) :
    assembly.lacking = none := by
  induction tokens generalizing assembly workspace with
  | nil =>
    rw [run, finish] at built
    split at built
    all_goals first | (rename_i nothing; exact nothing) | cases built
  | cons token tokens ih =>
    rw [run] at built
    split at built
    · cases built
    · rename_i next read
      exact lacking_of_read read (ih built)
    · rename_i name place next read
      have nothing := ih (show run keepImports (next.addAll _) tokens workspace = _ from built)
      exact lacking_of_read read nothing

/-- Wherever an item is expected, fewer than `bound` tokens that are accepted complete the open blocks. -/
def Sure (bound : Nat) : Prop :=
  ∀ {assembly : Assembly} {tokens : List Token} {workspace after : Workspace} {items : List Item},
    run keepImports assembly tokens workspace = (.ok items, after) → tokens.length < bound →
      assembly.expects = .item → Completes assembly.levels assembly.items tokens items

theorem Sure.enter {bound : Nat} (sure : Sure bound) (short : tokens.length < bound) {opening : Opening}
    {place : Location}
    (built : run keepImports (assembly.enter opening place) tokens workspace = (.ok items, after)) :
    Completes (⟨opening, place, assembly.items⟩ :: assembly.levels) [] tokens items :=
  sure built short rfl

/-- A keyword that opens a block at once. -/
theorem Sure.opener {bound : Nat} (sure : Sure bound) (short : tokens.length < bound) {keyword : Keyword}
    {place : Location} (expects : assembly.expects = .item) (opens : keyword ∈ [.if_, .while_, .repeat_])
    (built : run keepImports assembly (keyword.token place :: tokens) workspace = (.ok items, after)) :
    Completes assembly.levels assembly.items (keyword.token place :: tokens) items := by
  simp only [List.mem_cons, List.not_mem_nil, or_false] at opens
  rcases opens with rfl | rfl | rfl
  · rw [run_keyword expects rfl] at built
    cases sure.enter short built with
    | close phrases closes later =>
      cases closes
      exact later.derive (.branch place phrases _) (by simp [Phrase.tokens])
    | alternative phrases later =>
      obtain ⟨others, stop, item, rest, rfl, closes, last⟩ := later.closed (by simp) (by simp)
      cases closes
      exact last.derive (.choice place phrases _ others stop) (by simp [Phrase.tokens])
  · rw [run_keyword expects rfl] at built
    cases sure.enter short built with
    | close phrases closes later => cases closes
    | body phrases later =>
      obtain ⟨others, stop, item, rest, rfl, closes, last⟩ := later.closed (by simp) (by simp)
      cases closes
      exact last.derive (.loop place phrases _ others stop) (by simp [Phrase.tokens])
  · rw [run_keyword expects rfl] at built
    obtain ⟨phrases, stop, item, rest, rfl, closes, later⟩ := (sure.enter short built).closed (by simp) (by simp)
    cases closes
    exact later.derive (.repeats place phrases stop) (by simp [Phrase.tokens])

theorem Sure.bind {bound : Nat} (sure : Sure bound) (short : tokens.length < bound) {place : Location}
    (built : run keepImports (assembly.expect (.boundName place [])) tokens workspace = (.ok items, after)) :
    Completes assembly.levels assembly.items (Keyword.let_.token place :: tokens) items := by
  obtain ⟨labels, opening, rest, rfl, nonempty, onward⟩ := boundNames_of_run built
  simp only [List.length_append, List.length_cons] at short
  obtain ⟨phrases, stop, item, rest, rfl, closes, later⟩ :=
    (sure.enter (by omega) onward).closed (by simp) (by simp)
  cases closes
  cases labels with
  | nil => exact (nonempty rfl).elim
  | cons first names => exact later.derive (.bind place first names opening phrases stop) (by simp [Phrase.tokens])

theorem Sure.define {bound : Nat} (sure : Sure bound) (short : tokens.length < bound) {place : Location}
    (built : run keepImports (assembly.expect (.functionName place)) tokens workspace = (.ok items, after)) :
    Completes assembly.levels assembly.items (Keyword.fn.token place :: tokens) items := by
  cases tokens with
  | nil => cases built
  | cons token tokens =>
    obtain ⟨lexeme, there⟩ := token
    cases lexeme with
    | number | string | keyword => exact (run_error rfl built).elim
    | word name =>
      rw [run_next rfl, expect_expect] at built
      obtain ⟨inputs, colon, rest, rfl, signed⟩ := inputTypes_of_run built
      obtain ⟨outputs, opening, rest, rfl, onward⟩ := outputTypes_of_run signed
      simp only [List.length_append, List.length_cons] at short
      obtain ⟨phrases, stop, item, rest, rfl, closes, later⟩ :=
        (sure.enter (by omega) onward).closed (by simp) (by simp)
      cases closes
      exact later.derive (.define place ⟨name, there⟩ inputs colon outputs opening phrases stop)
        (by simp [Phrase.tokens, Label.token])

theorem Sure.cell {bound : Nat} (sure : Sure bound) (short : tokens.length < bound) {place : Location}
    (built : run keepImports (assembly.expect (.cellName place)) tokens workspace = (.ok items, after)) :
    Completes assembly.levels assembly.items (Keyword.var.token place :: tokens) items := by
  cases tokens with
  | nil => cases built
  | cons token tokens =>
    obtain ⟨lexeme, there⟩ := token
    cases lexeme with
    | number | string | keyword => exact (run_error rfl built).elim
    | word name =>
      rw [run_next rfl] at built
      obtain ⟨phrases, stop, item, rest, rfl, closes, later⟩ :=
        (sure.enter (Nat.lt_of_succ_lt short) built).closed (by simp) (by simp)
      cases closes
      exact later.derive (.cell place ⟨name, there⟩ phrases stop) (by simp [Phrase.tokens, Label.token])

theorem Sure.imports {bound : Nat} (sure : Sure bound) (short : tokens.length < bound) {place : Location}
    (built : run keepImports (assembly.expect (.moduleName place)) tokens workspace = (.ok items, after)) :
    Completes assembly.levels assembly.items (Keyword.import_.token place :: tokens) items := by
  cases tokens with
  | nil => cases built
  | cons token tokens =>
    obtain ⟨lexeme, there⟩ := token
    have added : ∀ name, run keepImports ((assembly.expect .item).addAll [.imports place name]) tokens workspace =
        (.ok items, after) → Completes assembly.levels (.imports place name :: assembly.items) tokens items :=
      fun name onward => sure onward (Nat.lt_of_succ_lt short) rfl
    cases lexeme with
    | keyword keyword => exact (run_error rfl built).elim
    | number text => exact (added text built).derive (.imports place ⟨.number text, there⟩ (fun _ => nofun)) rfl
    | string text => exact (added text built).derive (.imports place ⟨.string text, there⟩ (fun _ => nofun)) rfl
    | word text => exact (added text built).derive (.imports place ⟨.word text, there⟩ (fun _ => nofun)) rfl

/-- A keyword that splits or ends the innermost block. -/
theorem Sure.splitter {bound : Nat} (sure : Sure bound) (short : tokens.length < bound) {keyword : Keyword}
    {place : Location} (expects : assembly.expects = .item) (splits : keyword ∈ [.else_, .do_, .end_])
    (built : run keepImports assembly (keyword.token place :: tokens) workspace = (.ok items, after)) :
    Completes assembly.levels assembly.items (keyword.token place :: tokens) items := by
  obtain ⟨next, meant⟩ : ∃ next, assembly.keyword keyword place = .ok next := by
    cases meant : assembly.keyword keyword place with
    | ok next => exact ⟨next, rfl⟩
    | error =>
      have read := read_keyword expects keyword place
      rw [meant] at read
      exact (run_error read built).elim
  rw [run_keyword expects meant] at built
  have same : assembly.items.reverse ++ itemsOf [] = assembly.items.reverse := List.append_nil _
  have nothing := lacking_of_run built
  simp only [List.mem_cons, List.not_mem_nil, or_false] at splits
  rcases splits with rfl | rfl | rfl
  · simp only [Assembly.keyword, alternative] at meant
    split at meant
    · rename_i start before levels split
      cases meant
      rw [split]
      refine .alternative [] ?_
      rw [same]
      exact sure built short expects
    · cases meant
  · simp only [Assembly.keyword, body] at meant
    split at meant
    · rename_i start before levels split
      cases meant
      rw [split]
      refine .body [] ?_
      rw [same]
      exact sure built short expects
    · cases meant
  · simp only [Assembly.keyword, close] at meant
    split at meant
    · cases meant
    · rename_i level levels split
      rw [split]
      split at meant
      · rename_i item closes
        cases meant
        rw [← same] at closes
        exact .close [] closes (sure built short expects)
      · cases meant
        cases nothing

/-- Where an item is expected, tokens that are accepted complete the open blocks. -/
theorem sure (bound : Nat) : Sure bound := by
  induction bound with
  | zero =>
    intro assembly tokens workspace after items _ short
    cases short
  | succ bound ih =>
    intro assembly tokens workspace after items built short expects
    cases tokens with
    | nil =>
      rw [run, finish, expects] at built
      split at built
      any_goals cases built
      rename_i levels _
      rw [levels]
      have program := Completes.program assembly.items []
      rw [itemsOf, List.append_nil] at program
      exact program
    | cons token tokens =>
      have fewer : tokens.length < bound := Nat.lt_of_succ_lt_succ short
      obtain ⟨lexeme, place⟩ := token
      cases lexeme with
      | number digits =>
        cases parsed : Decimal.parse digits with
        | error cause => exact (run_error (by simp only [read, expects, item, parsed]; rfl) built).elim
        | ok n =>
          rw [run_next (by simp only [read, expects, item, parsed]; rfl)] at built
          exact (ih built fewer rfl).prepend (.number place digits n parsed)
      | string text =>
        rw [run_next (by rw [read, expects]; rfl)] at built
        exact (ih built fewer rfl).prepend (.string place text)
      | word name =>
        rw [run_next (by rw [read, expects]; rfl)] at built
        exact (ih built fewer rfl).prepend (.word place name)
      | keyword keyword =>
        change run keepImports assembly (keyword.token place :: tokens) workspace = _ at built
        cases keyword with
        | if_ | while_ | repeat_ => exact ih.opener fewer expects (by simp) built
        | let_ =>
          rw [run_keyword expects rfl] at built
          exact ih.bind fewer built
        | fn =>
          rw [run_keyword expects rfl] at built
          exact ih.define fewer built
        | var =>
          rw [run_keyword expects rfl] at built
          exact ih.cell fewer built
        | import_ =>
          rw [run_keyword expects rfl] at built
          exact ih.imports fewer built
        | colon => exact (run_error (read_keyword expects _ _) built).elim
        | else_ | do_ | end_ => exact ih.splitter fewer expects (by simp) built

end Assembly

/-- A program without imports spliced into it is accepted if and only if the grammar derives its tokens.
There is one derivation then, and the tape is the code of what it derives. -/
theorem assemble_iff_derived (settings : Settings) (unspliced : settings.splice = false) (tokens : List Token)
    (workspace : Workspace) :
    ((∃ items after, settings.assemble tokens workspace = (.ok items, after)) ↔
      ∃ phrases, tokensOf phrases = tokens) ∧
    ∀ phrases, tokensOf phrases = tokens →
      (∀ others, tokensOf others = tokens → others = phrases) ∧
      settings.assemble tokens workspace = (.ok (itemsOf phrases), workspace) ∧
      (Tape.ofItems (itemsOf phrases)).toList = codeOf 0 (itemsOf phrases) := by
  have assembled : settings.assemble = Assembly.run Assembly.keepImports {} := by
    funext tokens workspace
    rw [Settings.assemble, Settings.importer, unspliced]
    rfl
  have built : ∀ phrases, tokensOf phrases = tokens →
      settings.assemble tokens workspace = (.ok (itemsOf phrases), workspace) := by
    rintro phrases rfl
    have run := Assembly.run_tokensOf phrases (show ({} : Assembly).expects = .item from rfl) [] workspace
    rw [List.append_nil] at run
    rw [assembled, run]
    simp only [Assembly.run, Assembly.finish, Assembly.addAll, Assembly.reverse_reverseAux]
  refine ⟨⟨?_, ?_⟩, ?_⟩
  · rintro ⟨items, after, accepted⟩
    rw [assembled] at accepted
    have completes := Assembly.sure _ accepted (Nat.lt_succ_self _) rfl
    generalize before : ({} : Assembly).items = nothing at completes
    cases completes with
    | program _ phrases => exact ⟨phrases, rfl⟩
  · rintro ⟨phrases, derived⟩
    exact ⟨_, _, built phrases derived⟩
  · intro phrases derived
    refine ⟨?_, built phrases derived, Tape.toList_ofItems _⟩
    intro others same
    rw [← derived, ← List.append_nil (tokensOf others), ← List.append_nil (tokensOf phrases)] at same
    exact (tokensOf_injective others phrases stops_nil stops_nil same).1

/-- The program `if "x" pr end`. -/
def guarded : List Phrase :=
  [.branch ⟨0, 0, 2⟩ [.string ⟨0, 3, 6⟩ "x", .word ⟨0, 7, 9⟩ "pr"] ⟨0, 10, 13⟩]

/-- Its tokens are accepted, and its code jumps to the `end`. -/
theorem assemble_guarded :
    ({ library := .memory {}, splice := false } : Settings).splice = false ∧
    ({ library := .memory {}, splice := false } : Settings).assemble (tokensOf guarded) {} =
      (.ok (itemsOf guarded), {}) ∧
    (Tape.ofItems (itemsOf guarded)).toList =
      [⟨.branch none 3, ⟨0, 0, 2⟩⟩, ⟨.string "x", ⟨0, 3, 6⟩⟩, ⟨.call "pr", ⟨0, 7, 9⟩⟩, ⟨.noop, ⟨0, 10, 13⟩⟩] := by
  have derived := ((assemble_iff_derived { library := .memory {}, splice := false } rfl
    (tokensOf guarded) {}).2 guarded rfl).2
  exact ⟨rfl, derived.1, derived.2⟩

end TapeMachine
