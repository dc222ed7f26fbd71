import TapeMachine.Proofs.Flow

namespace TapeMachine.Walker

open Survey

variable {survey : Survey} {reading : Reading} {walker : Walker} {here next there : Point} {below : List Value}
  {beneath : List (Dictionary Value)} {rest : List Piece}

/-- A walker stands at a point of the program, with the store and the functions that are expected there. -/
structure Tracked (survey : Survey) (reading : Reading) (walker : Walker) (here there : Point) (below : List Value)
    (beneath : List (Dictionary Value)) : Prop where
  address : walker.ip = here.address
  level : survey.Level reading here walker.code there
  store : reading.Matches here.scope here.types below beneath walker.store
  covers : Covers here.known walker.functions
  hosts : survey.Hosts reading walker.functions there below beneath walker.blocks
  legit : ∀ name routine, walker.functions.get? name = some routine →
    survey.Legit reading walker.functions name routine

def Follows (survey : Survey) (reading : Reading) (walker : Walker) : Prop :=
  ∃ here there below beneath, Tracked survey reading walker here there below beneath

/-- The move leads to walkers that follow the survey, or fails as it may. -/
abbrev Move.Obeys (survey : Survey) (reading : Reading) (move : Move) : Prop :=
  move.Keeps (Follows survey reading) reading.Allows

/-- An instruction that works on the store first obeys, if its failures are allowed and its results lead on. -/
theorem obeys_after {α : Type} {outcome : Outcome α} {place : Location} {onward : α → Move}
    (fails : ∀ cause, outcome = .error cause → reading.Allows cause)
    (goes : ∀ found, outcome = .ok found → (onward found).Obeys survey reading) :
    (Move.after outcome place onward).Obeys survey reading := by
  cases outcome with
  | ok found => exact goes found rfl
  | error cause => exact fails cause rfl

/-- Go on at another point of the level. -/
theorem Tracked.goto (tracked : Tracked survey reading walker here there below beneath) {address : Nat}
    {code : List Piece} {store : Store} (same : next.address = address) (level : survey.Level reading next code there)
    (held : reading.Matches next.scope next.types below beneath store) (known : next.known = here.known) :
    Follows survey reading ({ walker with store }.goto address code) :=
  ⟨next, there, below, beneath, same.symm, level, held, known ▸ tracked.covers, tracked.hosts, tracked.legit⟩

/-- Go on inside a block, from which the program is known to go on. -/
theorem Tracked.inside (tracked : Tracked survey reading walker here there below beneath) {block : Block}
    {address : Nat} {body : List Item} {outer : List Block} {store : Store} {inner stop : Point}
    (same : inner.address = address) (level : survey.Level reading inner (Piece.ofItems body) stop)
    (held : reading.Matches inner.scope inner.types below beneath store)
    (covers : Covers inner.known walker.functions)
    (hosts : survey.Hosts reading walker.functions stop below beneath (block :: outer)) :
    Follows survey reading ({ walker with store }.inside block address body outer) :=
  ⟨inner, stop, below, beneath, same.symm, level, held, covers, hosts, tracked.legit⟩

theorem Tracked.leave (tracked : Tracked survey reading walker here there below beneath) {closing : Closing}
    {outer : List Block} {store : Store} {last : Point} (same : next.address = closing.address)
    (level : survey.Level reading next closing.code last)
    (held : reading.Matches next.scope next.types below beneath store) (covers : Covers next.known walker.functions)
    (hosts : survey.Hosts reading walker.functions last below beneath outer) :
    Follows survey reading ({ walker with store }.leave closing outer) :=
  ⟨next, last, below, beneath, same.symm, level, held, covers, hosts, tracked.legit⟩

theorem quiet_noop (names : List String) : Mark.noop ≠ .unbind names := by
  intro same
  cases same

/-- A word is a builtin, which serves by its contract, a function, whose frame remembers what waits below its inputs,
or a name that is bound. -/
theorem Tracked.obeys_word (tracked : Tracked survey reading walker here there below beneath) {name : String}
    {place : Location} (flows : survey.Flows reading here (.word place name) next)
    (further : survey.Level reading next rest there) : (walker.word name place rest).Obeys survey reading := by
  have stands := tracked.address
  unfold word
  cases flows with
  | @call a K s before after _ _ known meets =>
    cases found : walker.functions.get? name with
    | none => exact (tracked.covers name known found).elim
    | some routine =>
      have legit := tracked.legit name routine found
      cases routine with
      | builtin word =>
        have serves := meets.builtin word legit
        refine obeys_after ?_ ?_
        · intro cause failed
          exact serves.allows _ _ _ _ _ tracked.store failed
        · rintro ⟨effect, store⟩ invoked
          have yields := serves.yields _ _ _ _ _ _ tracked.store invoked
          cases effect with
          | «continue» | print => exact tracked.goto (congrArg (· + 1) stands.symm) further yields rfl
          | input kind prompt =>
            intro value answered typed pushed
            have held := yields value answered typed pushed
            show Follows survey reading ({ walker with store := answered }.goto (walker.ip + 1) rest)
            exact tracked.goto (congrArg (· + 1) stands.symm) further held rfl
      | user tape definition from_ body =>
        obtain ⟨inner, signature, stop, left, declared, covers, level, visited, widens⟩ := legit
        obtain ⟨taken, types, rfl, narrows, result, waits⟩ := meets.user signature declared
        obtain ⟨waiting, frames, fits, framed, held⟩ := tracked.store.depart narrows
        have joined : reading.WidensAll (left ++ types) after :=
          (widens.append (Reading.widensAll_refl types)).trans result
        rw [stands]
        refine ⟨_, _, _, _, rfl, level, held, covers, ?_, tracked.legit⟩
        exact .call visited joined further tracked.covers waits fits framed tracked.hosts
  | @fetch a K s types t _ _ foreign bound =>
    cases found : walker.functions.get? name with
    | some routine =>
      have legit := tracked.legit name routine found
      cases routine with
      | builtin word => exact (foreign.builtin word legit).elim
      | user tape definition from_ body =>
        obtain ⟨-, signature, -, -, declared, -⟩ := legit
        exact (foreign.user signature declared).elim
    | none =>
      obtain ⟨value, stored, admitted⟩ := tracked.store.get? bound
      have fetched : walker.store.fetch name = walker.store.push value := by rw [Store.fetch, stored]
      refine obeys_after ?_ ?_
      · intro cause failed
        exact Reading.allows_push (fetched.symm.trans failed)
      · intro store pushed
        have held := tracked.store.push admitted (fetched.symm.trans pushed)
        exact tracked.goto (congrArg (· + 1) stands.symm) further held rfl

theorem Tracked.obeys_push (tracked : Tracked survey reading walker here there below beneath) {t : Ty} {value : Value}
    (place : Location) (typed : value.HasType t)
    (further : survey.Level reading ⟨here.address + 1, here.known, here.scope, t :: here.types⟩ rest there) :
    (Move.after (walker.store.push value) place fun store => .ran (walker.next rest store)).Obeys survey reading := by
  refine obeys_after ?_ ?_
  · intro cause failed
    exact Reading.allows_push failed
  · intro store pushed
    have held := tracked.store.push (reading.typed typed) pushed
    exact tracked.goto (congrArg (· + 1) tracked.address.symm) further held rfl

/-- The way past the block and the way into it start from the same types. -/
theorem Tracked.obeys_branch (tracked : Tracked survey reading walker here there below beneath) {place stop : Location}
    {body : List Item} (flows : survey.Flows reading here (.branch place body stop) next)
    (further : survey.Level reading next rest there) :
    (walker.perform (.branch place body stop) rest).Obeys survey reading := by
  have stands := tracked.address
  cases flows with
  | @branch a K s t opened closed _ _ _ decides level widens visited =>
    have behind : survey.Level reading ⟨a + 1 + span body, K, s, closed⟩ (.mark .noop stop :: rest) there :=
      .pass quiet_noop visited further
    refine obeys_after ?_ ?_
    · intro cause failed
      exact tracked.store.allows_takeNumber decides failed
    · rintro ⟨n, store⟩ taken
      have held := tracked.store.takeNumber taken
      rw [stands]
      dsimp only
      split
      · exact tracked.goto rfl (level.append behind) held rfl
      · exact tracked.goto rfl behind (held.widen widens) rfl

theorem Tracked.obeys_choice (tracked : Tracked survey reading walker here there below beneath)
    {place middle stop : Location} {consequent alternative : List Item}
    (flows : survey.Flows reading here (.choice place consequent middle alternative stop) next)
    (further : survey.Level reading next rest there) :
    (walker.perform (.choice place consequent middle alternative stop) rest).Obeys survey reading := by
  have stands := tracked.address
  cases flows with
  | @choice a b K s t opened first second _ _ _ _ _ decides bound inner visited other widens visited' =>
    have behind : survey.Level reading ⟨b + 1 + span alternative, K, s, first⟩ (.mark .noop stop :: rest) there :=
      .pass quiet_noop visited' further
    refine obeys_after ?_ ?_
    · intro cause failed
      exact tracked.store.allows_takeNumber decides failed
    · rintro ⟨n, store⟩ taken
      have held := tracked.store.takeNumber taken
      rw [stands]
      dsimp only
      rw [← bound]
      split
      · exact tracked.inside rfl inner held tracked.covers (.consequent behind tracked.covers tracked.hosts)
      · refine tracked.goto rfl (.pass quiet_noop visited ?_) held rfl
        exact other.append (.quiet quiet_noop widens visited' further)

/-- Whether the body runs again or not, its end has the types of its beginning. -/
theorem Tracked.obeys_repeats (tracked : Tracked survey reading walker here there below beneath) {place stop : Location}
    {body : List Item} (flows : survey.Flows reading here (.repeats place body stop) next)
    (further : survey.Level reading next rest there) :
    (walker.perform (.repeats place body stop) rest).Obeys survey reading := by
  have stands := tracked.address
  cases flows with
  | @repeats a K s t opened closed _ _ _ decides level widens again visited =>
    have behind : survey.Level reading ⟨a + 1 + span body, K, s, closed⟩ (.mark .noop stop :: rest) there :=
      .pass quiet_noop visited further
    refine obeys_after ?_ ?_
    · intro cause failed
      exact tracked.store.allows_takeCount decides failed
    · rintro ⟨count, store⟩ taken
      have held := tracked.store.takeCount taken
      rw [stands]
      cases count with
      | zero => exact tracked.goto rfl behind (held.widen widens) rfl
      | succ more =>
        refine tracked.inside rfl level held tracked.covers ?_
        exact .repeats level again behind tracked.covers tracked.hosts

/-- The test starts from what the loop has found, and so does each further turn. -/
theorem Tracked.obeys_loop (tracked : Tracked survey reading walker here there below beneath)
    {place middle stop : Location} {test body : List Item}
    (flows : survey.Flows reading here (.loop place test middle body stop) next)
    (further : survey.Level reading next rest there) :
    (walker.perform (.loop place test middle body stop) rest).Obeys survey reading := by
  have stands := tracked.address
  cases flows with
  | @loop a b K s t before opened closed _ _ _ _ _ decides bound tested inner leaves again visited =>
    subst bound
    have turns : Turns survey reading K s ⟨a, test, middle, body⟩ t before opened closed :=
      ⟨decides, tested, inner, leaves, again⟩
    have behind :
        survey.Level reading ⟨a + 1 + span test + 1 + span body, K, s, closed⟩ (.mark .noop stop :: rest) there :=
      .pass quiet_noop visited further
    rw [perform, stands]
    exact tracked.inside rfl tested tracked.store tracked.covers (.test turns behind tracked.covers tracked.hosts)

theorem Tracked.obeys_bind (tracked : Tracked survey reading walker here there below beneath) {place stop : Location}
    {names : List String} {body : List Item} (flows : survey.Flows reading here (.bind place names body stop) next)
    (further : survey.Level reading next rest there) :
    (walker.perform (.bind place names body stop) rest).Obeys survey reading := by
  have stands := tracked.address
  cases flows with
  | @bind a K s taken opened closed _ _ _ _ count level visited visited' =>
    have behind : survey.Level reading ⟨a + 1 + span body, K, s.bind names taken.reverse, closed⟩
        (.mark (.unbind names) stop :: .mark .noop stop :: rest) there :=
      .unbind visited (.pass quiet_noop visited' further)
    obtain ⟨store, bound, held⟩ := tracked.store.bind count
    rw [perform, stands, bound]
    exact tracked.goto rfl (level.append behind) held rfl

theorem Tracked.obeys_cell (tracked : Tracked survey reading walker here there below beneath) {place stop : Location}
    {name : String} {body : List Item} (flows : survey.Flows reading here (.cell place name body stop) next)
    (further : survey.Level reading next rest there) :
    (walker.perform (.cell place name body stop) rest).Obeys survey reading := by
  have stands := tracked.address
  cases flows with
  | @cell a K s opened closed _ _ _ _ level visited =>
    have behind : survey.Level reading ⟨a + 1 + span body, K, s, closed⟩ (.mark .noop stop :: rest) there :=
      .pass quiet_noop visited further
    refine obeys_after ?_ ?_
    · intro cause failed
      exact Reading.Matches.allows_claim failed
    · rintro ⟨owned, store⟩ claimed
      have held := tracked.store.claim claimed
      rw [stands]
      exact tracked.inside rfl level held tracked.covers (.cell behind tracked.covers tracked.hosts)

theorem covers_insert {known : String → Prop} {functions : Dictionary Routine} (covers : Covers known functions)
    (name : String) (routine : Routine) : Covers known (functions.insert name routine) := by
  intro other wanted
  rw [Dictionary.get?_insert]
  split
  · exact Option.some_ne_none _
  · exact covers other wanted

/-- A function becomes known where it is defined, and it does what it declares. -/
theorem Tracked.obeys_define (tracked : Tracked survey reading walker here there below beneath) {place stop : Location}
    {heading : Heading} {body : List Item} (flows : survey.Flows reading here (.define place heading body stop) next)
    (further : survey.Level reading next rest there) :
    (walker.perform (.define place heading body stop) rest).Obeys survey reading := by
  have stands := tracked.address
  cases flows with
  | @define a b K s types _ _ signature left _ _ K' declared learns bound level visited widens visited' visited'' =>
    subst bound
    rw [perform, stands]
    have grows : ∀ known, Covers known walker.functions → Covers known (walker.functions.insert heading.name
        (.user walker.tape ⟨heading, a + 1, a + 3 + span body⟩ place body)) :=
      fun known covers => covers_insert covers _ _
    have covers : Covers K' (walker.functions.insert heading.name
        (.user walker.tape ⟨heading, a + 1, a + 3 + span body⟩ place body)) := by
      intro name wanted
      rcases learns name wanted with same | before
      · rw [Dictionary.get?_insert, if_pos same.symm]
        exact Option.some_ne_none _
      · exact grows K tracked.covers name before
    have behind : survey.Level reading ⟨a + 3 + span body + 1, K', s, types⟩
        (.mark .dropCell stop :: .mark .noop stop :: rest) there :=
      .pass (by intro names same; cases same) visited' (.pass quiet_noop visited'' further)
    refine ⟨_, _, _, _, rfl, behind, tracked.store, covers, tracked.hosts.mono grows, ?_⟩
    intro name routine found
    rw [Dictionary.get?_insert] at found
    split at found
    · rename_i same
      cases found
      exact same ▸ ⟨K', signature, _, left, declared, covers, level, visited, widens⟩
    · exact (tracked.legit name routine found).mono grows

/-- One case for each kind of item. -/
theorem Tracked.obeys_perform (tracked : Tracked survey reading walker here there below beneath) {item : Item}
    (code : walker.code = .item item :: rest) : (walker.perform item rest).Obeys survey reading := by
  have level := tracked.level
  rw [code] at level
  cases level with
  | item visited flows further =>
    cases item with
    | number place n =>
      cases flows with
      | number => exact tracked.obeys_push place (.inr rfl) further
    | string place text =>
      cases flows with
      | string => exact tracked.obeys_push place (.inr rfl) further
    | word place name => exact tracked.obeys_word flows further
    | imports place name => trivial
    | branch place body stop => exact tracked.obeys_branch flows further
    | choice place consequent middle alternative stop => exact tracked.obeys_choice flows further
    | repeats place body stop => exact tracked.obeys_repeats flows further
    | loop place test middle body stop => exact tracked.obeys_loop flows further
    | bind place names body stop => exact tracked.obeys_bind flows further
    | cell place name body stop => exact tracked.obeys_cell flows further
    | define place heading body stop => exact tracked.obeys_define flows further

/-- At the end of a body the walker is where the frame of its block expects it. -/
theorem Tracked.obeys_close (tracked : Tracked survey reading walker here there below beneath) {block : Block}
    {outer : List Block} (code : walker.code = []) (blocks : walker.blocks = block :: outer) :
    (walker.close block outer).Obeys survey reading := by
  have level := tracked.level
  have hosts := tracked.hosts
  rw [code] at level
  rw [blocks] at hosts
  cases level
  cases hosts with
  | consequent level covers hosts => exact tracked.leave rfl level tracked.store covers hosts
  | @repeats _ _ _ _ _ _ _ _ start body remaining closing _ inner again level covers hosts =>
    cases remaining with
    | zero => exact tracked.leave rfl level tracked.store covers hosts
    | succ remaining =>
      exact tracked.inside rfl inner (tracked.store.widen again) covers (.repeats inner again level covers hosts)
  | @test _ _ _ _ _ _ _ _ _ _ loop closing _ turns level covers hosts =>
    refine obeys_after ?_ ?_
    · intro cause failed
      exact tracked.store.allows_takeNumber turns.decides failed
    · rintro ⟨n, store⟩ taken
      have held := tracked.store.takeNumber taken
      dsimp only
      split
      · exact tracked.leave rfl level (held.widen turns.leaves) covers hosts
      · exact tracked.inside rfl turns.body held covers (.body turns level covers hosts)
  | body turns level covers hosts =>
    exact tracked.inside rfl turns.test (tracked.store.widen turns.again) covers (.test turns level covers hosts)
  | cell level covers hosts =>
    refine obeys_after ?_ ?_
    · intro cause failed
      exact Reading.Matches.allows_release failed
    · intro store released
      exact tracked.leave rfl level (tracked.store.release released) covers hosts
  | call visited widens level covers waits fits framed hosts =>
    have held := (tracked.store.rejoin fits framed).widen widens
    exact ⟨_, _, _, _, rfl, level, held, covers, hosts, tracked.legit⟩

theorem Tracked.obeys_mark (tracked : Tracked survey reading walker here there below beneath) {mark : Mark}
    {place : Location} (code : walker.code = .mark mark place :: rest) :
    Follows survey reading (walker.pass mark rest) := by
  have level := tracked.level
  have stands := congrArg (· + 1) tracked.address.symm
  rw [code] at level
  cases level with
  | quiet quiet widens visited further =>
    have held := tracked.store.widen widens
    cases mark with
    | noop | enter | dropCell => exact tracked.goto stands further held rfl
    | unbind names => exact (quiet names rfl).elim
  | unbind visited further => exact tracked.goto stands further tracked.store.unbind rfl

/-- A walker that follows a survey goes on to do so, and fails only as the reading allows. -/
theorem upholds_follows (survey : Survey) (reading : Reading) : Upholds (Follows survey reading) reading.Allows where
  keeps := by
    rintro walker ⟨here, there, below, beneath, tracked⟩
    unfold move
    split
    · rename_i code
      exact tracked.obeys_mark code
    · rename_i code
      exact tracked.obeys_perform code
    · rename_i code blocks
      exact tracked.obeys_close code blocks
    · trivial
  unreadable text := .inl rfl
  full label := .inl rfl

theorem close_ne_ends {block : Block} {outer : List Block} : walker.close block outer ≠ .ends := by
  intro ends
  cases block <;> simp only [close, Move.after] at ends <;> (repeat' split at ends) <;> cases ends

theorem perform_ne_ends {item : Item} : walker.perform item rest ≠ .ends := by
  intro ends
  cases item <;> simp only [perform, word, builtin, Move.after] at ends <;> (repeat' split at ends) <;> cases ends

/-- A program ends where nothing is left to walk, inside no block. -/
theorem nil_of_ends (ends : walker.move = .ends) : walker.code = [] ∧ walker.blocks = [] := by
  unfold move at ends
  split at ends
  · cases ends
  · exact (perform_ne_ends ends).elim
  · exact (close_ne_ends ends).elim
  · rename_i code blocks
    exact ⟨code, blocks⟩

/-- Where a walker that follows a survey has come to the end, its stack is empty. -/
theorem Follows.empty (follows : Follows survey reading walker) (ends : walker.move = .ends) :
    walker.store.operands.entries = [] := by
  obtain ⟨here, there, below, beneath, tracked⟩ := follows
  obtain ⟨code, blocks⟩ := nil_of_ends ends
  have level := tracked.level
  have hosts := tracked.hosts
  rw [code] at level
  rw [blocks] at hosts
  cases level
  cases hosts with
  | program =>
    obtain ⟨own, entries, fits⟩ := tracked.store.operands
    cases fits
    exact entries

/-- Before an instruction the operands are those that have been seen there. -/
theorem Tracked.visited (tracked : Tracked survey reading walker here there below beneath)
    (returns : walker.code = [] → ∃ tape address rest outer, walker.blocks = .call tape address rest :: outer) :
    ∃ types, survey.visited walker.ip types ∧ reading.Matches here.scope types below beneath walker.store := by
  have level := tracked.level
  rw [tracked.address]
  cases code : walker.code with
  | cons piece rest =>
    rw [code] at level
    cases level with
    | item visited => exact ⟨_, visited, tracked.store⟩
    | quiet _ widens visited => exact ⟨_, visited, tracked.store.widen widens⟩
    | unbind visited => exact ⟨_, visited, tracked.store⟩
  | nil =>
    obtain ⟨tape, address, rest, outer, blocks⟩ := returns code
    have hosts := tracked.hosts
    rw [code] at level
    rw [blocks] at hosts
    cases level
    cases hosts with
    | call visited => exact ⟨_, visited, tracked.store⟩

end TapeMachine.Walker
