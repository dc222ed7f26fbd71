import TapeMachine.Assembly

namespace TapeMachine

/-- A name and where it stands. -/
structure Label where
  name : String
  place : Location

def Label.token (label : Label) : Token :=
  ⟨.word label.name, label.place⟩

/-- A keyword and where it stands. -/
def Keyword.token (keyword : Keyword) (place : Location) : Token :=
  ⟨.keyword keyword, place⟩

/-- A derivation of an item. It knows the place of every token it is made of. -/
inductive Phrase
  | number (place : Location) (digits : String) (n : Decimal) (reads : Decimal.parse digits = .ok n)
  | string (place : Location) (text : String)
  | word (place : Location) (name : String)
  | branch (place : Location) (body : List Phrase) (stop : Location)
  | choice (place : Location) (consequent : List Phrase) (middle : Location) (alternative : List Phrase)
      (stop : Location)
  | repeats (place : Location) (body : List Phrase) (stop : Location)
  | loop (place : Location) (test : List Phrase) (middle : Location) (body : List Phrase) (stop : Location)
  | bind (place : Location) (first : Label) (names : List Label) (opening : Location) (body : List Phrase)
      (stop : Location)
  | define (place : Location) (name : Label) (inputs : List Label) (colon : Location) (outputs : List Label)
      (opening : Location) (body : List Phrase) (stop : Location)
  | cell (place : Location) (name : Label) (body : List Phrase) (stop : Location)
  | imports (place : Location) (target : Token) (plain : ∀ keyword, target.lexeme ≠ .keyword keyword)

mutual

/-- The tokens that a derivation derives. -/
def Phrase.tokens : Phrase → List Token
  | .number place digits _ _ => [⟨.number digits, place⟩]
  | .string place text => [⟨.string text, place⟩]
  | .word place name => [⟨.word name, place⟩]
  | .branch place body stop => Keyword.if_.token place :: (tokensOf body ++ [Keyword.end_.token stop])
  | .choice place consequent middle alternative stop =>
    Keyword.if_.token place ::
      (tokensOf consequent ++ Keyword.else_.token middle :: (tokensOf alternative ++ [Keyword.end_.token stop]))
  | .repeats place body stop => Keyword.repeat_.token place :: (tokensOf body ++ [Keyword.end_.token stop])
  | .loop place test middle body stop =>
    Keyword.while_.token place ::
      (tokensOf test ++ Keyword.do_.token middle :: (tokensOf body ++ [Keyword.end_.token stop]))
  | .bind place first names opening body stop =>
    Keyword.let_.token place :: first.token ::
      (names.map Label.token ++ Keyword.do_.token opening :: (tokensOf body ++ [Keyword.end_.token stop]))
  | .define place name inputs colon outputs opening body stop =>
    Keyword.fn.token place :: name.token ::
      (inputs.map Label.token ++ Keyword.colon.token colon ::
        (outputs.map Label.token ++ Keyword.do_.token opening ::
          (tokensOf body ++ [Keyword.end_.token stop])))
  | .cell place name body stop =>
    Keyword.var.token place :: name.token :: (tokensOf body ++ [Keyword.end_.token stop])
  | .imports place target _ => [Keyword.import_.token place, target]

def tokensOf : List Phrase → List Token
  | [] => []
  | phrase :: rest => phrase.tokens ++ tokensOf rest

end

mutual

/-- The item that a derivation derives. -/
def Phrase.item : Phrase → Item
  | .number place _ n _ => .number place n
  | .string place text => .string place text
  | .word place name => .word place name
  | .branch place body stop => .branch place (itemsOf body) stop
  | .choice place consequent middle alternative stop =>
    .choice place (itemsOf consequent) middle (itemsOf alternative) stop
  | .repeats place body stop => .repeats place (itemsOf body) stop
  | .loop place test middle body stop => .loop place (itemsOf test) middle (itemsOf body) stop
  | .bind place first names _ body stop => .bind place (first.name :: names.map Label.name) (itemsOf body) stop
  | .define place name inputs _ outputs _ body stop =>
    .define place ⟨name.name, inputs.map Label.name, outputs.map Label.name⟩ (itemsOf body) stop
  | .cell place name body stop => .cell place name.name (itemsOf body) stop
  | .imports place target _ => .imports place target.lexeme.contents

def itemsOf : List Phrase → List Item
  | [] => []
  | phrase :: rest => phrase.item :: itemsOf rest

end

/-- Behind the tokens of a level comes nothing, or a keyword that splits or ends a block. -/
def Stops : List Token → Prop
  | [] => True
  | token :: _ => token.lexeme = .keyword .else_ ∨ token.lexeme = .keyword .do_ ∨ token.lexeme = .keyword .end_

theorem stops_nil : Stops [] :=
  trivial

theorem stops_else {place : Location} {rest : List Token} : Stops (Keyword.else_.token place :: rest) :=
  .inl rfl

theorem stops_do {place : Location} {rest : List Token} : Stops (Keyword.do_.token place :: rest) :=
  .inr (.inl rfl)

theorem stops_end {place : Location} {rest : List Token} : Stops (Keyword.end_.token place :: rest) :=
  .inr (.inr rfl)

theorem Keyword.token_inj {keyword other : Keyword} {place there : Location} :
    keyword.token place = other.token there ↔ keyword = other ∧ place = there := by
  simp [Keyword.token]

theorem Keyword.cons_token_inj {keyword : Keyword} {place there : Location} {rest others : List Token}
    (same : keyword.token place :: rest = keyword.token there :: others) : place = there ∧ rest = others := by
  obtain ⟨head, tail⟩ := List.cons.inj same
  exact ⟨(token_inj.1 head).2, tail⟩

theorem Label.token_inj {label other : Label} (same : label.token = other.token) : label = other := by
  cases label
  cases other
  cases same
  rfl

/-- No derivation begins with such a keyword. -/
theorem not_stops_tokens (phrase : Phrase) (tokens : List Token) : ¬ Stops (phrase.tokens ++ tokens) := by
  cases phrase <;> simp [Phrase.tokens, Stops, Keyword.token]

/-- Names end where the first keyword comes. -/
theorem labels_injective {first second : List Label} {one two : Token} {keyword other : Keyword}
    {rest others : List Token} (isKeyword : one.lexeme = .keyword keyword) (isOther : two.lexeme = .keyword other)
    (same : first.map Label.token ++ one :: rest = second.map Label.token ++ two :: others) :
    first = second ∧ one = two ∧ rest = others := by
  induction first generalizing second with
  | nil =>
    cases second with
    | nil => exact ⟨rfl, List.cons.inj same⟩
    | cons label labels =>
      have head := (List.cons.inj same).1
      rw [head] at isKeyword
      cases isKeyword
  | cons label labels ih =>
    cases second with
    | nil =>
      have head := (List.cons.inj same).1
      rw [← head] at isOther
      cases isOther
    | cons label' labels' =>
      obtain ⟨head, tail⟩ := List.cons.inj same
      obtain ⟨labelsEq, tokensEq⟩ := ih tail
      obtain ⟨name, place⟩ := label
      obtain ⟨name', place'⟩ := label'
      cases head
      exact ⟨by rw [labelsEq], tokensEq⟩

mutual

/-- Tokens begin with the tokens of one derivation only. -/
theorem tokens_injective (first second : Phrase) {rest others : List Token}
    (same : first.tokens ++ rest = second.tokens ++ others) : first = second ∧ rest = others := by
  -- Openers tell phrases apart, except those of a branch and of a choice: there the keyword behind the first body does.
  cases first with
  | number place digits n reads =>
    cases second with
    | number place' digits' n' reads' =>
      simp only [Phrase.tokens, List.cons_append, List.nil_append, List.cons.injEq, Token.mk.injEq,
        Lexeme.number.injEq] at same
      obtain ⟨⟨rfl, rfl⟩, rfl⟩ := same
      rw [reads] at reads'
      cases reads'
      exact ⟨rfl, rfl⟩
    | _ => simp [Phrase.tokens, Keyword.token] at same
  | string place text =>
    cases second with
    | string place' text' =>
      simp only [Phrase.tokens, List.cons_append, List.nil_append, List.cons.injEq, Token.mk.injEq,
        Lexeme.string.injEq] at same
      obtain ⟨⟨rfl, rfl⟩, rfl⟩ := same
      exact ⟨rfl, rfl⟩
    | _ => simp [Phrase.tokens, Keyword.token] at same
  | word place name =>
    cases second with
    | word place' name' =>
      simp only [Phrase.tokens, List.cons_append, List.nil_append, List.cons.injEq, Token.mk.injEq,
        Lexeme.word.injEq] at same
      obtain ⟨⟨rfl, rfl⟩, rfl⟩ := same
      exact ⟨rfl, rfl⟩
    | _ => simp [Phrase.tokens, Keyword.token] at same
  | branch place body stop =>
    cases second with
    | branch place' body' stop' =>
      simp only [Phrase.tokens, List.cons_append, List.append_assoc, List.nil_append, List.cons.injEq,
        Keyword.token_inj, true_and] at same
      obtain ⟨rfl, inner⟩ := same
      obtain ⟨rfl, behind⟩ := tokensOf_injective body body' stops_end stops_end inner
      obtain ⟨rfl, rfl⟩ := Keyword.cons_token_inj behind
      exact ⟨rfl, rfl⟩
    | choice place' consequent middle alternative stop' =>
      simp only [Phrase.tokens, List.cons_append, List.append_assoc, List.nil_append, List.cons.injEq,
        Keyword.token_inj, true_and] at same
      have behind := (tokensOf_injective body consequent stops_end stops_else same.2).2
      cases behind
    | _ => simp [Phrase.tokens, Keyword.token] at same
  | choice place consequent middle alternative stop =>
    cases second with
    | branch place' body' stop' =>
      simp only [Phrase.tokens, List.cons_append, List.append_assoc, List.nil_append, List.cons.injEq,
        Keyword.token_inj, true_and] at same
      have behind := (tokensOf_injective consequent body' stops_else stops_end same.2).2
      cases behind
    | choice place' consequent' middle' alternative' stop' =>
      simp only [Phrase.tokens, List.cons_append, List.append_assoc, List.nil_append, List.cons.injEq,
        Keyword.token_inj, true_and] at same
      obtain ⟨rfl, whole⟩ := same
      obtain ⟨rfl, later⟩ := tokensOf_injective consequent consequent' stops_else stops_else whole
      obtain ⟨rfl, inner⟩ := Keyword.cons_token_inj later
      obtain ⟨rfl, behind⟩ := tokensOf_injective alternative alternative' stops_end stops_end inner
      obtain ⟨rfl, rfl⟩ := Keyword.cons_token_inj behind
      exact ⟨rfl, rfl⟩
    | _ => simp [Phrase.tokens, Keyword.token] at same
  | repeats place body stop =>
    cases second with
    | repeats place' body' stop' =>
      simp only [Phrase.tokens, List.cons_append, List.append_assoc, List.nil_append, List.cons.injEq,
        Keyword.token_inj, true_and] at same
      obtain ⟨rfl, inner⟩ := same
      obtain ⟨rfl, behind⟩ := tokensOf_injective body body' stops_end stops_end inner
      obtain ⟨rfl, rfl⟩ := Keyword.cons_token_inj behind
      exact ⟨rfl, rfl⟩
    | _ => simp [Phrase.tokens, Keyword.token] at same
  | loop place test middle body stop =>
    cases second with
    | loop place' test' middle' body' stop' =>
      simp only [Phrase.tokens, List.cons_append, List.append_assoc, List.nil_append, List.cons.injEq,
        Keyword.token_inj, true_and] at same
      obtain ⟨rfl, whole⟩ := same
      obtain ⟨rfl, later⟩ := tokensOf_injective test test' stops_do stops_do whole
      obtain ⟨rfl, inner⟩ := Keyword.cons_token_inj later
      obtain ⟨rfl, behind⟩ := tokensOf_injective body body' stops_end stops_end inner
      obtain ⟨rfl, rfl⟩ := Keyword.cons_token_inj behind
      exact ⟨rfl, rfl⟩
    | _ => simp [Phrase.tokens, Keyword.token] at same
  | bind place name names opening body stop =>
    cases second with
    | bind place' name' names' opening' body' stop' =>
      simp only [Phrase.tokens, List.cons_append, List.append_assoc, List.nil_append, List.cons.injEq,
        Keyword.token_inj, true_and] at same
      obtain ⟨rfl, head, whole⟩ := same
      obtain rfl := Label.token_inj head
      obtain ⟨rfl, opened, inner⟩ := labels_injective rfl rfl whole
      obtain ⟨-, rfl⟩ := Keyword.token_inj.1 opened
      obtain ⟨rfl, behind⟩ := tokensOf_injective body body' stops_end stops_end inner
      obtain ⟨rfl, rfl⟩ := Keyword.cons_token_inj behind
      exact ⟨rfl, rfl⟩
    | _ => simp [Phrase.tokens, Keyword.token] at same
  | define place name inputs colon outputs opening body stop =>
    cases second with
    | define place' name' inputs' colon' outputs' opening' body' stop' =>
      simp only [Phrase.tokens, List.cons_append, List.append_assoc, List.nil_append, List.cons.injEq,
        Keyword.token_inj, true_and] at same
      obtain ⟨rfl, head, whole⟩ := same
      obtain rfl := Label.token_inj head
      obtain ⟨rfl, divided, later⟩ := labels_injective rfl rfl whole
      obtain ⟨-, rfl⟩ := Keyword.token_inj.1 divided
      obtain ⟨rfl, opened, inner⟩ := labels_injective rfl rfl later
      obtain ⟨-, rfl⟩ := Keyword.token_inj.1 opened
      obtain ⟨rfl, behind⟩ := tokensOf_injective body body' stops_end stops_end inner
      obtain ⟨rfl, rfl⟩ := Keyword.cons_token_inj behind
      exact ⟨rfl, rfl⟩
    | _ => simp [Phrase.tokens, Keyword.token] at same
  | cell place name body stop =>
    cases second with
    | cell place' name' body' stop' =>
      simp only [Phrase.tokens, List.cons_append, List.append_assoc, List.nil_append, List.cons.injEq,
        Keyword.token_inj, true_and] at same
      obtain ⟨rfl, head, inner⟩ := same
      obtain rfl := Label.token_inj head
      obtain ⟨rfl, behind⟩ := tokensOf_injective body body' stops_end stops_end inner
      obtain ⟨rfl, rfl⟩ := Keyword.cons_token_inj behind
      exact ⟨rfl, rfl⟩
    | _ => simp [Phrase.tokens, Keyword.token] at same
  | imports place target plain =>
    cases second with
    | imports place' target' plain' =>
      simp only [Phrase.tokens, Keyword.token, List.cons_append, List.nil_append, List.cons.injEq,
        Token.mk.injEq, true_and] at same
      obtain ⟨rfl, rfl, rfl⟩ := same
      exact ⟨rfl, rfl⟩
    | _ => simp [Phrase.tokens, Keyword.token] at same

theorem tokensOf_injective (first second : List Phrase) {rest others : List Token} (stops : Stops rest)
    (halts : Stops others) (same : tokensOf first ++ rest = tokensOf second ++ others) :
    first = second ∧ rest = others := by
  match first, second with
  | [], [] => exact ⟨rfl, same⟩
  | [], phrase :: phrases =>
    rw [tokensOf, List.nil_append, tokensOf, List.append_assoc] at same
    exact (not_stops_tokens phrase _ (same ▸ stops)).elim
  | phrase :: phrases, [] =>
    rw [tokensOf, tokensOf, List.nil_append, List.append_assoc] at same
    exact (not_stops_tokens phrase _ (same ▸ halts)).elim
  | phrase :: phrases, phrase' :: phrases' =>
    rw [tokensOf, tokensOf, List.append_assoc, List.append_assoc] at same
    obtain ⟨rfl, tail⟩ := tokens_injective phrase phrase' same
    obtain ⟨rfl, end_⟩ := tokensOf_injective phrases phrases' stops halts tail
    exact ⟨rfl, end_⟩

end

end TapeMachine
