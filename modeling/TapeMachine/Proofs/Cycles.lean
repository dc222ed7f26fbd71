import Mathlib
import TapeMachine.Proofs.Descent
import TapeMachine.Proofs.Outline
import TapeMachine.Proofs.Resolution

namespace TapeMachine

open Relation (ReflTransGen TransGen)

/-- `import` and a token that names the module stand one behind the other. -/
def ImportsIn (lexemes : List Lexeme) (name : String) : Prop :=
  ∃ target, [.keyword .import_, target] <:+: lexemes ∧ target.contents = name

/-- A text imports a module. -/
def TextImports (text name : String) : Prop :=
  ∃ tokens, Token.ofText 0 text = .ok tokens ∧ ImportsIn (tokens.map Token.lexeme) name

/-- The import graph: one module of a library imports another one. -/
def ModuleImports (modules : Dictionary String) (module name : String) : Prop :=
  ∃ text, modules.get? module = some text ∧ TextImports text name

/-- A program imports a module, or a module that it reaches does. -/
def Reaches (modules : Dictionary String) (text module : String) : Prop :=
  ∃ first, TextImports text first ∧ ReflTransGen (ModuleImports modules) first module

/-- A text has tokens, and the grammar derives them. -/
def Derivable (text : String) : Prop :=
  ∃ phrases, Token.ofText 0 text = .ok (tokensOf phrases)

/-- A program and all modules that it reaches can be read, and the modules are there under plain names, which are not the
name of the program. -/
structure Readable (modules : Dictionary String) (name text : String) : Prop where
  root : Derivable text
  served : ∀ module, Reaches modules text module → ∃ body, modules.get? module = some body ∧ Derivable body
  plain : ∀ module, Reaches modules text module →
    module.toList.head? ≠ some '.' ∧ '/' ∉ module.toList ∧ '\\' ∉ module.toList
  other : ∀ module, Reaches modules text module → module ≠ name

section

variable {modules : Dictionary String} {name text rootName rootText module : String} {lexeme : Lexeme}
variable {lexemes : List Lexeme}

theorem not_importsIn_nil (name : String) : ¬ImportsIn [] name := by
  rintro ⟨target, inside, -⟩
  simp at inside

theorem importsIn_cons :
    ImportsIn (lexeme :: lexemes) name ↔
      (lexeme = .keyword .import_ ∧ ∃ target ∈ lexemes.head?, target.contents = name) ∨ ImportsIn lexemes name := by
  constructor
  · rintro ⟨target, inside, same⟩
    rcases List.infix_cons_iff.1 inside with front | later
    · obtain ⟨rfl, behind⟩ := List.cons_prefix_cons.1 front
      cases lexemes with
      | nil => simp at behind
      | cons next rest =>
        obtain ⟨rfl, -⟩ := List.cons_prefix_cons.1 behind
        exact .inl ⟨rfl, target, by simp, same⟩
    · exact .inr ⟨target, later, same⟩
  · rintro (⟨rfl, target, first, same⟩ | ⟨target, inside, same⟩)
    · cases lexemes with
      | nil => cases first
      | cons next rest =>
        cases first
        exact ⟨target, List.infix_cons_iff.2 (.inl (by simp)), same⟩
    · exact ⟨target, List.infix_cons_iff.2 (.inr inside), same⟩

theorem isRelative_eq_false (plain : name.toList.head? ≠ some '.' ∧ '/' ∉ name.toList ∧ '\\' ∉ name.toList) :
    Workspace.isRelative name = false := by
  obtain ⟨first, slash, backslash⟩ := plain
  simp only [Workspace.isRelative, Bool.or_eq_false_iff, beq_eq_false_iff_ne, List.any_eq_false, Bool.or_eq_true,
    beq_iff_eq, not_or]
  exact ⟨first, fun c member => ⟨fun same => slash (same ▸ member), fun same => backslash (same ▸ member)⟩⟩

end

namespace Assembly

variable {assembly next : Assembly} {token : Token} {tokens : List Token} {name other : String} {place : Location}

/-- A module is imported by the tokens that are left. The `import` itself may have been read already. -/
def Wants (assembly : Assembly) (tokens : List Token) (name : String) : Prop :=
  (∃ place target, assembly.expects = .moduleName place ∧ target ∈ tokens.head? ∧ target.lexeme.contents = name) ∨
    ImportsIn (tokens.map Token.lexeme) name

theorem wants_of_named (named : assembly.Named) :
    assembly.Wants tokens name ↔ ImportsIn (tokens.map Token.lexeme) name := by
  refine ⟨?_, .inr⟩
  rintro (⟨place, target, waits, -⟩ | inside)
  · exact (named place waits).elim
  · exact inside

theorem named_of_next (read : assembly.read token = .ok (.next next)) : assembly.Named := by
  intro place waits
  obtain ⟨lexeme, there⟩ := token
  simp only [Assembly.read, waits] at read
  cases lexeme <;> cases read

theorem wants_next (read : assembly.read token = .ok (.next next)) :
    assembly.Wants (token :: tokens) name ↔ next.Wants tokens name := by
  have named := named_of_next read
  rw [wants_of_named named, List.map_cons, importsIn_cons]
  obtain ⟨lexeme, there⟩ := token
  by_cases ordinary : lexeme = .keyword .import_
  · subst ordinary
    obtain ⟨-, same⟩ := item_of_read_import named read
    cases same
    refine or_congr_left ⟨?_, ?_⟩
    · rintro ⟨-, target, first, contents⟩
      rw [List.head?_map] at first
      obtain ⟨token, found, rfl⟩ := Option.map_eq_some_iff.1 first
      exact ⟨there, token, rfl, found, contents⟩
    · rintro ⟨place, token, -, first, contents⟩
      exact ⟨rfl, token.lexeme, by rw [List.head?_map, first]; rfl, contents⟩
  · obtain ⟨_, same, named'⟩ := named_of_read named ordinary read
    cases same
    rw [wants_of_named named']
    simp [ordinary]

theorem wants_imports (read : assembly.read token = .ok (.imports name place next)) (items : List Item) :
    assembly.Wants (token :: tokens) other ↔ other = name ∨ (next.addAll items).Wants tokens other := by
  obtain ⟨waits, contents, plain, -⟩ := expects_of_imports read
  rw [Wants, wants_of_named (named_of_item rfl), List.map_cons, importsIn_cons]
  constructor
  · rintro (⟨place, target, -, first, same⟩ | ⟨keyword, -⟩ | later)
    · cases first
      exact .inl (same.symm.trans contents)
    · exact (plain _ keyword).elim
    · exact .inr later
  · rintro (rfl | later)
    · exact .inl ⟨place, token, waits, rfl, contents⟩
    · exact .inr (.inr later)

end Assembly

section

variable {modules : Dictionary String} {name text rootName rootText : String} {file : Nat} {tokens : List Token}

theorem map_lexeme_of_near {near : Location → Location → Prop} {tokens' : List Token}
    (same : List.Forall₂ (Token.Near near) tokens tokens') : tokens.map Token.lexeme = tokens'.map Token.lexeme := by
  induction same with
  | nil => rfl
  | cons first _ ih => rw [List.map_cons, List.map_cons, first.1, ih]

theorem lexemes_moved {file' : Nat} {tokens' : List Token} (read : Token.ofText file text = .ok tokens)
    (read' : Token.ofText file' text = .ok tokens') : tokens.map Token.lexeme = tokens'.map Token.lexeme := by
  obtain ⟨same, here, near⟩ := Token.ofText_moved file read'
  cases read.symm.trans here
  exact map_lexeme_of_near near

/-- What a text imports can be read off its tokens in any file. -/
theorem textImports_iff (read : Token.ofText file text = .ok tokens) :
    TextImports text name ↔ ImportsIn (tokens.map Token.lexeme) name := by
  constructor
  · rintro ⟨tokens', read', inside⟩
    rwa [lexemes_moved read read']
  · intro inside
    obtain ⟨tokens', read', -⟩ := Token.ofText_moved 0 read
    exact ⟨tokens', read', by rwa [lexemes_moved read' read]⟩

/-- What the grammar derives is accepted in any file. -/
theorem Derivable.accepts (derivable : Derivable text) (read : Token.ofText file text = .ok tokens) :
    ({} : Assembly).Accepts tokens := by
  obtain ⟨phrases, derived⟩ := derivable
  have runs : ∀ others, Assembly.run Assembly.keepImports {} (tokensOf phrases) others =
      (.ok (itemsOf phrases), others) := by
    intro others
    have run := Assembly.run_tokensOf phrases (show ({} : Assembly).expects = .item from rfl) [] others
    rw [List.append_nil] at run
    rw [run]
    simp only [Assembly.run, Assembly.finish, Assembly.addAll, Assembly.reverse_reverseAux]
  obtain ⟨items, kept, -⟩ := keptProgram_moved (Assembly.keptProgram_of_run derived runs) file
  simp only [Assembly.keptProgram, read] at kept
  cases built : Assembly.run Assembly.keepImports {} tokens {} with
  | mk outcome after =>
  rw [built] at kept
  cases outcome with
  | error => cases kept
  | ok items => exact Assembly.accepts_of_run built

/-- While a program is compiled, what is read for a module of another name is its text in the library. -/
theorem textOf_module {sources : Sources} (grown : Sources.Grown modules (({} : Sources).add rootName rootText) sources)
    (other : name ≠ rootName) : sources.textOf modules name = modules.get? name := by
  have absent : (({} : Sources).add rootName rootText).find? name = none := by
    simp [Sources.find?, Sources.add, other.symm]
  rw [grown.textOf, Sources.textOf, absent]

theorem openModule_of_mem {workspace : Workspace} {library : Library} (place : Location)
    (plain : Workspace.isRelative name = false) (member : name ∈ workspace.chain) :
    workspace.openModule library name place = (.error ⟨.importCycle workspace.chain name, some place⟩, workspace) := by
  rw [Workspace.openModule, if_neg (by simp [plain]), if_pos member]

end

/-- No path of imports from a module leads to one that is being imported, or to a module that imports itself. -/
def Clear (modules : Dictionary String) (chain : List String) (name : String) : Prop :=
  ∀ module, ReflTransGen (ModuleImports modules) name module →
    module ∉ chain ∧ ¬TransGen (ModuleImports modules) module module

/-- A failure shows a cycle: from the modules that are being imported, of which none comes twice, a path of imports leads
on to one of them. -/
def Loops (modules : Dictionary String) (chain : List String) (wants : String → Prop) (failure : Failure) : Prop :=
  ∃ more last place, failure = ⟨.importCycle (chain ++ more) last, some place⟩ ∧
    (∃ first ∈ (more ++ [last]).head?, wants first) ∧ (more ++ [last]).IsChain (ModuleImports modules) ∧
    (chain ++ more).Nodup ∧ last ∈ chain ++ more

/-- What becomes of the imports of a program. -/
def Settled (modules : Dictionary String) (chain : List String) (wants : String → Prop) :
    Except Failure (List Item) → Prop
  | .ok _ => ∀ name, wants name → Clear modules chain name
  | .error failure => Loops modules chain wants failure

section

variable {modules : Dictionary String} {chain : List String} {name : String} {wants wants' : String → Prop}
variable {failure : Failure}

theorem Clear.of_imports (fresh : name ∉ chain)
    (inside : ∀ next, ModuleImports modules name next → Clear modules (chain ++ [name]) next) :
    Clear modules chain name := by
  intro module path
  rcases path.cases_head with rfl | ⟨next, edge, later⟩
  · refine ⟨fresh, fun cycle => ?_⟩
    obtain ⟨next, edge, later⟩ := TransGen.head'_iff.1 cycle
    exact (inside next edge name later).1 (by simp)
  · obtain ⟨outside, acyclic⟩ := inside next edge module later
    exact ⟨fun member => outside (by simp [member]), acyclic⟩

theorem Loops.mono (loops : Loops modules chain wants failure) (more : ∀ name, wants name → wants' name) :
    Loops modules chain wants' failure := by
  obtain ⟨path, last, place, same, ⟨first, head, wanted⟩, linked, distinct, member⟩ := loops
  exact ⟨path, last, place, same, ⟨first, head, more first wanted⟩, linked, distinct, member⟩

/-- A cycle that shows inside a module shows in the program that imports the module. -/
theorem Loops.outside (loops : Loops modules (chain ++ [name]) wants failure)
    (edges : ∀ next, wants next → ModuleImports modules name next) (wanted : wants' name) :
    Loops modules chain wants' failure := by
  obtain ⟨path, last, place, same, ⟨first, head, inner⟩, linked, distinct, member⟩ := loops
  rw [List.append_assoc] at same distinct member
  refine ⟨name :: path, last, place, same, ⟨name, rfl, wanted⟩, ?_, distinct, member⟩
  rw [List.cons_append, List.isChain_cons]
  refine ⟨fun next first' => ?_, linked⟩
  cases head.symm.trans first'
  exact edges first inner

end

namespace Assembly

variable {modules : Dictionary String} {rootName rootText : String} {assembly : Assembly} {tokens : List Token}
variable {workspace : Workspace} {build : Build (List Item)}

/-- What is known of a module that a readable program imports. -/
structure Known (modules : Dictionary String) (workspace : Workspace) (name body : String) : Prop where
  plain : Workspace.isRelative name = false
  served : modules.get? name = some body
  read : workspace.sources.textOf modules name = some body
  derivable : Derivable body

theorem known_of_reaches (readable : Readable modules rootName rootText)
    (grown : Sources.Grown modules (({} : Sources).add rootName rootText) workspace.sources) {name : String}
    (reaches : Reaches modules rootText name) : ∃ body, Known modules workspace name body := by
  obtain ⟨body, served, derivable⟩ := readable.served name reaches
  refine ⟨body, isRelative_eq_false (readable.plain name reaches), served, ?_, derivable⟩
  rw [textOf_module grown (readable.other name reaches), served]

/-- If such a module is not opened, it is being imported already. -/
theorem Known.cycle {name body : String} (known : Known modules workspace name body) {place : Location}
    {failure : Failure} {after : Workspace}
    (failed : workspace.openModule (.memory modules) name place = (.error failure, after)) :
    name ∈ workspace.chain ∧ failure = ⟨.importCycle workspace.chain name, some place⟩ := by
  by_cases member : name ∈ workspace.chain
  · rw [openModule_of_mem place known.plain member] at failed
    cases failed
    exact ⟨member, rfl⟩
  · obtain ⟨file, opened, -, -, -, opens⟩ :=
      Workspace.openModule_of_textOf place known.plain member known.served known.read
    obtain ⟨phrases, derived⟩ := known.derivable
    obtain ⟨tokens, read, -⟩ := Token.ofText_moved file derived
    cases (opens tokens read).symm.trans failed

/-- If it is opened, its tokens are accepted, and what they want is what the module imports. -/
theorem Known.opened {name body : String} (known : Known modules workspace name body) {inner : List Token}
    {opened : Workspace} (opens : Workspace.Opens modules name workspace inner opened) :
    ({} : Assembly).Accepts inner ∧ ∀ next, ({} : Assembly).Wants inner next ↔ ModuleImports modules name next := by
  obtain ⟨file, text, here, there, read⟩ := opens.file
  have same : text = body := by
    have effective := opens.grown.textOf name
    rw [Sources.textOf_of_get? here there, known.read] at effective
    exact Option.some.inj effective
  subst same
  refine ⟨known.derivable.accepts read, fun next => ?_⟩
  rw [wants_of_named (named_of_item rfl), ← textImports_iff read]
  constructor
  · intro imports
    exact ⟨text, known.served, imports⟩
  · rintro ⟨text', served, imports⟩
    cases known.served.symm.trans served
    exact imports

/-- What is known of the tokens of a module once it has been opened. -/
structure Entered (modules : Dictionary String) (rootName rootText name : String) (chain : List String)
    (inner : List Token) (opened : Workspace) : Prop where
  accepts : ({} : Assembly).Accepts inner
  grown : Sources.Grown modules (({} : Sources).add rootName rootText) opened.sources
  fresh : name ∉ chain
  chain : opened.chain = chain ++ [name]
  imports : ∀ next, ({} : Assembly).Wants inner next ↔ ModuleImports modules name next
  reaches : ∀ next, ({} : Assembly).Wants inner next → Reaches modules rootText next

theorem entered_of_openModule (readable : Readable modules rootName rootText)
    (grown : Sources.Grown modules (({} : Sources).add rootName rootText) workspace.sources) {name : String}
    (reaches : Reaches modules rootText name) {place : Location} {inner : List Token} {opened : Workspace}
    (opening : workspace.openModule (.memory modules) name place = (.ok inner, opened)) :
    Entered modules rootName rootText name workspace.chain inner opened := by
  have opens := Workspace.opens_of_openModule opening
  obtain ⟨body, known⟩ := known_of_reaches readable grown reaches
  obtain ⟨accepts, imports⟩ := known.opened opens
  refine ⟨accepts, grown.trans opens.grown, opens.fresh, opens.chain, imports, fun next wanted => ?_⟩
  obtain ⟨first, imported, path⟩ := reaches
  exact ⟨first, imported, path.tail ((imports next).1 wanted)⟩

theorem Entered.distinct {name : String} {chain : List String} {inner : List Token} {opened : Workspace}
    (entered : Entered modules rootName rootText name chain inner opened) (distinct : chain.Nodup) :
    opened.chain.Nodup := by
  rw [entered.chain, ← List.concat_eq_append]
  exact distinct.concat entered.fresh

/-- A readable program fails only where a cycle shows, and where it does not fail there is none. -/
theorem Assembles.settled (readable : Readable modules rootName rootText)
    (assembles : Assembles (.memory modules) assembly tokens workspace build) (accepts : assembly.Accepts tokens)
    (grown : Sources.Grown modules (({} : Sources).add rootName rootText) workspace.sources)
    (distinct : workspace.chain.Nodup)
    (reaches : ∀ name, assembly.Wants tokens name → Reaches modules rootText name) :
    Settled modules workspace.chain (assembly.Wants tokens) build.1 := by
  induction assembles with
  | @finished assembly workspace =>
    obtain ⟨items, finished⟩ := accepts
    rw [finished]
    rintro name (⟨place, target, -, first, -⟩ | inside)
    · cases first
    · exact (not_importsIn_nil name inside).elim
  | rejected read =>
    obtain ⟨step, read', -⟩ := accepts
    cases read.symm.trans read'
  | @next assembly token next rest workspace build read _ ih =>
    obtain ⟨step, read', onward⟩ := accepts
    cases read.symm.trans read'
    have same : assembly.Wants (token :: rest) = next.Wants rest := funext fun name => propext (wants_next read)
    rw [same] at reaches ⊢
    exact ih onward grown distinct reaches
  | @unopened assembly token name place next rest workspace failure after read failed =>
    have wanted : assembly.Wants (token :: rest) name := (wants_imports read []).2 (.inl rfl)
    obtain ⟨body, known⟩ := known_of_reaches readable grown (reaches name wanted)
    obtain ⟨member, same⟩ := known.cycle failed
    refine ⟨[], name, place, ?_, ⟨name, rfl, wanted⟩, .singleton name, ?_, ?_⟩
    · rwa [List.append_nil]
    · rwa [List.append_nil]
    · rwa [List.append_nil]
  | @broken assembly token name place next rest workspace inner opened failure after read opening _ ih =>
    have wanted : assembly.Wants (token :: rest) name := (wants_imports read []).2 (.inl rfl)
    have entered := entered_of_openModule readable grown (reaches name wanted) opening
    have inside := ih entered.accepts entered.grown (entered.distinct distinct) entered.reaches
    rw [entered.chain] at inside
    exact Loops.outside inside (fun next => (entered.imports next).1) wanted
  | @spliced assembly token name place next rest workspace inner opened included between build read opening inside _
      insideIh laterIh =>
    have wants := fun other => @wants_imports assembly next token rest name other place read included
    have wanted : assembly.Wants (token :: rest) name := (wants name).2 (.inl rfl)
    have entered := entered_of_openModule readable grown (reaches name wanted) opening
    have clear := insideIh entered.accepts entered.grown (entered.distinct distinct) entered.reaches
    rw [entered.chain] at clear
    have kept : between.close.chain = workspace.chain := Workspace.chain_close (inside.chain_eq.trans entered.chain)
    have onward := laterIh (accepts_addAll read accepts included) (entered.grown.trans inside.grown)
      (by rwa [kept]) fun other later => reaches other ((wants other).2 (.inr later))
    rw [kept] at onward
    obtain ⟨result, after⟩ := build
    cases result with
    | error failure => exact Loops.mono onward fun other later => (wants other).2 (.inr later)
    | ok items =>
      intro other wanted'
      rcases (wants other).1 wanted' with rfl | later
      · exact Clear.of_imports entered.fresh fun next edge => clear next ((entered.imports next).2 edge)
      · exact onward other later

end Assembly

/-- The modules that a cycle shows import one another: the one that comes last imports itself, and it is reached. -/
theorem Loops.cyclic {modules : Dictionary String} {text : String} {failure : Failure}
    (loops : Loops modules [] (TextImports text) failure) :
    ∃ module, Reaches modules text module ∧ TransGen (ModuleImports modules) module module := by
  obtain ⟨path, last, place, -, ⟨first, head, imported⟩, linked, -, member⟩ := loops
  refine ⟨last, ⟨first, imported, ?_⟩, ?_⟩
  · obtain ⟨rest, same⟩ : ∃ rest, path ++ [last] = first :: rest := by
      cases path with
      | nil => cases member
      | cons other rest => cases head; exact ⟨rest ++ [last], rfl⟩
    refine List.relationReflTransGen_of_exists_isChain_cons rest (same ▸ linked) ?_
    simp only [← same, List.getLast_append_singleton]
  · obtain ⟨before, behind, rfl⟩ := List.append_of_mem member
    rw [List.append_assoc, List.cons_append, List.isChain_append] at linked
    have round := linked.2.1
    cases behind with
    | nil => exact .single (List.isChain_cons_cons.1 round).1
    | cons next rest =>
      rw [List.cons_append, List.isChain_cons_cons] at round
      exact .head' round.1 (List.relationReflTransGen_of_exists_isChain_cons (rest ++ [last]) round.2 (by simp))

/-- What becomes of the imports of a readable program that is compiled. -/
theorem Compiles.settled {modules : Dictionary String} {name text : String} {build : Build (List Item)}
    (compiled : Compiles (.memory modules) name text {} build) (readable : Readable modules name text) :
    Settled modules [] (TextImports text) build.1 := by
  obtain ⟨phrases, derived⟩ := readable.root
  have wants : ({} : Assembly).Wants (tokensOf phrases) = TextImports text := by
    funext module
    rw [Assembly.wants_of_named (Assembly.named_of_item rfl), textImports_iff derived]
  cases compiled with
  | unread read => cases derived.symm.trans read
  | assembled read assembles =>
    cases derived.symm.trans read
    have result := assembles.settled readable (readable.root.accepts derived) (.refl _) .nil
      fun module wanted => ⟨module, wants ▸ wanted, .refl⟩
    rwa [wants] at result

/-- Imports come to an end, and they fail exactly where they go round in circles. Without a bound on the depth of imports
a program comes to one end, and that is what compiling gives. If the program and all modules that it reaches can be read,
it compiles if and only if none of these modules reaches itself; and if one does, the failure names modules of which
each imports the next, from one that the program imports up to the first that has been named before. -/
theorem imports_fail_on_cycles {modules : Dictionary String} {settings : Settings}
    (library : settings.library = .memory modules) (spliced : settings.splice = true) (name text : String) :
    (∀ workspace build, Compiles (.memory modules) name text workspace build ↔
      build = settings.compile name text workspace) ∧
    (Readable modules name text →
      ((∃ items after, settings.compile name text {} = (.ok items, after)) ↔
        ∀ module, Reaches modules text module → ¬TransGen (ModuleImports modules) module module) ∧
      ((∃ module, Reaches modules text module ∧ TransGen (ModuleImports modules) module module) →
        ∃ cause place after chain last, settings.compile name text {} = (.error ⟨cause, some place⟩, after) ∧
          cause.code = .importCycle ∧ cause.text = " -> ".intercalate (chain ++ [last]) ∧
          (∃ first ∈ chain.head?, TextImports text first) ∧ (chain ++ [last]).IsChain (ModuleImports modules) ∧
          chain.Nodup ∧ last ∈ chain)) := by
  have compiles := settings.compiles library spliced name text
  refine ⟨fun workspace build => ⟨fun other => other.unique (compiles workspace), fun same => same ▸ compiles workspace⟩,
    fun readable => ?_⟩
  have settled := (compiles {}).settled readable
  cases compiled : settings.compile name text {} with
  | mk outcome after =>
  rw [compiled] at settled
  cases outcome with
  | ok items =>
    have acyclic : ∀ module, Reaches modules text module → ¬TransGen (ModuleImports modules) module module := by
      rintro module ⟨first, imported, path⟩
      exact (settled first imported module path).2
    refine ⟨⟨fun _ => acyclic, fun _ => ⟨items, after, rfl⟩⟩, ?_⟩
    rintro ⟨module, reached, cycle⟩
    exact (acyclic module reached cycle).elim
  | error failure =>
    obtain ⟨module, reached, cycle⟩ := Loops.cyclic settled
    refine ⟨⟨?_, fun acyclic => (acyclic module reached cycle).elim⟩, fun _ => ?_⟩
    · rintro ⟨items, after', built⟩
      cases built
    · obtain ⟨path, last, place, rfl, ⟨first, head, imported⟩, linked, distinct, member⟩ := settled
      refine ⟨_, place, after, path, last, rfl, rfl, rfl, ⟨first, ?_, imported⟩, linked, distinct, member⟩
      cases path with
      | nil => cases member
      | cons other rest => exact head

/-- Two modules that import one another, and a third one that both import. -/
def tangled : Dictionary String :=
  .ofList [("a", "import c import b"), ("b", "import c import a"), ("c", "pr")]

/-- Two imports of modules whose names have one letter. -/
def twoImports (first second : String) : List Phrase :=
  [.imports ⟨0, 0, 6⟩ ⟨.word first, ⟨0, 7, 8⟩⟩ (by simp), .imports ⟨0, 9, 15⟩ ⟨.word second, ⟨0, 16, 17⟩⟩ (by simp)]

theorem textImports_twoImports {text first second name : String}
    (read : Token.ofText 0 text = .ok (tokensOf (twoImports first second))) :
    TextImports text name ↔ first = name ∨ second = name := by
  rw [textImports_iff read]
  simp [tokensOf, twoImports, Phrase.tokens, Keyword.token, importsIn_cons, not_importsIn_nil, Lexeme.contents]

/-- A program that imports the third one and then one of the two compiles to a failure. -/
theorem tangled_fails :
    Readable tangled "main" "import c import a" ∧
    ∃ cause place after chain last,
      ({ library := .memory tangled } : Settings).compile "main" "import c import a" {} =
        (.error ⟨cause, some place⟩, after) ∧
      cause.code = .importCycle ∧ cause.text = " -> ".intercalate (chain ++ [last]) ∧
      (chain ++ [last]).IsChain (ModuleImports tangled) ∧ chain.Nodup ∧ last ∈ chain := by
  have readRoot : Token.ofText 0 "import c import a" = .ok (tokensOf (twoImports "c" "a")) := by cbv
  have readFirst : Token.ofText 0 "import c import b" = .ok (tokensOf (twoImports "c" "b")) := by cbv
  have readLast : Token.ofText 0 "pr" = .ok (tokensOf [.word ⟨0, 0, 2⟩ "pr"]) := by cbv
  have none : ∀ name, ¬TextImports "pr" name := by
    intro name
    rw [textImports_iff readLast]
    simp [tokensOf, Phrase.tokens, importsIn_cons, not_importsIn_nil]
  have a : tangled.get? "a" = some "import c import b" := by decide
  have b : tangled.get? "b" = some "import c import a" := by decide
  have c : tangled.get? "c" = some "pr" := by decide
  have few : ∀ module, Reaches tangled "import c import a" module → module = "a" ∨ module = "b" ∨ module = "c" := by
    rintro module ⟨first, imported, path⟩
    induction path with
    | refl => rcases (textImports_twoImports readRoot).1 imported with rfl | rfl <;> simp
    | tail _ edge ih =>
      obtain ⟨text, served, imports⟩ := edge
      rcases ih with rfl | rfl | rfl
      · cases a.symm.trans served
        rcases (textImports_twoImports readFirst).1 imports with rfl | rfl <;> simp
      · cases b.symm.trans served
        rcases (textImports_twoImports readRoot).1 imports with rfl | rfl <;> simp
      · cases c.symm.trans served
        exact (none _ imports).elim
  have readable : Readable tangled "main" "import c import a" := by
    refine ⟨⟨_, readRoot⟩, fun module reached => ?_, fun module reached => ?_, fun module reached => ?_⟩
    · rcases few module reached with rfl | rfl | rfl
      · exact ⟨_, a, _, readFirst⟩
      · exact ⟨_, b, _, readRoot⟩
      · exact ⟨_, c, _, readLast⟩
    · rcases few module reached with rfl | rfl | rfl <;> decide
    · rcases few module reached with rfl | rfl | rfl <;> decide
  have there : ModuleImports tangled "a" "b" := ⟨_, a, (textImports_twoImports readFirst).2 (.inr rfl)⟩
  have back : ModuleImports tangled "b" "a" := ⟨_, b, (textImports_twoImports readRoot).2 (.inr rfl)⟩
  have reached : Reaches tangled "import c import a" "a" :=
    ⟨"a", (textImports_twoImports readRoot).2 (.inr rfl), .refl⟩
  obtain ⟨-, fails⟩ := (@imports_fail_on_cycles tangled { library := .memory tangled } rfl rfl "main" _).2 readable
  obtain ⟨cause, place, after, chain, last, failed, code, text, -, linked, distinct, member⟩ :=
    fails ⟨"a", reached, .head there (.single back)⟩
  exact ⟨readable, cause, place, after, chain, last, failed, code, text, linked, distinct, member⟩

end TapeMachine
